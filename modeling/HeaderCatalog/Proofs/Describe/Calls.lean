import HeaderCatalog.Proofs.Describe.Notes
import HeaderCatalog.Proofs.Entry.Members
import HeaderCatalog.Proofs.Resolution.Sugar
import Mathlib.Data.List.Basic
import Mathlib.Logic.Relation

set_option autoImplicit false

/-!
# Blocks and the calls they stand for

Describing a block follows the handle through its sugar, to the function that is called and through the sugar of that
one.  What comes of it can be said without the recursion: the handle is a certain call or none (`blockCall?`), and the
block is put together from what that call returns and takes (`block?_eq`).

What a call takes may be a block again.  Such an argument is smaller than the handle (`sizeOf_lt_of_takes`), so what
holds of a block if it holds of those it takes holds of every block (`TypeHandle.induction_on_takes`).
-/

namespace HeaderCatalog

/-! ## Calls behind handles -/

namespace TypeHandle

/-- The call that a handle stands for under its sugar, if it is a block. -/
def blockCall? (handle : TypeHandle) : Option Callable := handle.callable?.filter (·.kind = .block)

/-- A handle is a block that takes another one. -/
def Takes (handle argument : TypeHandle) : Prop := ∃ call ∈ handle.blockCall?, argument ∈ call.arguments

theorem blockCall?_eq (handle : TypeHandle) : handle.blockCall? =
    if handle.desugared.kind = .blockPointer
      then some ⟨.block, handle.desugared.spelling, handle.desugared.pointee.map desugared⟩ else none := by
  unfold blockCall? callable?
  dsimp only
  cases hkind : handle.desugared.kind with
  | pointer =>
    cases handle.desugared.pointee with
    | none => rfl
    | some pointee =>
      dsimp only [Option.map_some]
      split <;> rfl
  | _ => rfl

/-- What is called as a block is a block pointer under its sugar, and no unnamed record. -/
theorem kind_of_blockCall? {handle : TypeHandle} {call : Callable} (h : handle.blockCall? = some call) :
    call.kind = .block ∧ handle.desugared.kind = .blockPointer := by
  rw [blockCall?_eq] at h
  split at h
  case isTrue hkind =>
    cases h
    exact ⟨rfl, hkind⟩
  case isFalse => cases h

theorem unnamedRecord?_of_blockCall? {handle : TypeHandle} {call : Callable} (h : handle.blockCall? = some call) :
    handle.unnamedRecord? = none := by
  rw [unnamedRecord?, (kind_of_blockCall? h).2]

theorem blockCall?_of_unnamedRecord? {handle : TypeHandle} {kind : RecordKind} (h : handle.unnamedRecord? = some kind) :
    handle.blockCall? = none := by
  cases hcall : handle.blockCall? with
  | none => rfl
  | some call =>
    rw [unnamedRecord?_of_blockCall? hcall] at h
    cases h

theorem sizeOf_desugared_le (handle : TypeHandle) : sizeOf handle.desugared ≤ sizeOf handle := by
  fun_induction desugared handle with
  | case1 sugar spelling pointee target result arguments fields element size variadic declaration ih =>
    simp only [mk.sizeOf_spec, Option.some.sizeOf_spec]
    omega
  | case2 handle hend => exact Nat.le_refl _

/-- What a block takes is smaller than the block. -/
theorem sizeOf_lt_of_takes {handle argument : TypeHandle} (h : handle.Takes argument) :
    sizeOf argument < sizeOf handle := by
  obtain ⟨call, hcall, hargument⟩ := h
  rw [Option.mem_def, blockCall?_eq] at hcall
  split at hcall
  case isFalse => cases hcall
  case isTrue =>
    cases hcall
    have hhandle := handle.sizeOf_desugared_le
    generalize handle.desugared = target at hargument hhandle
    obtain ⟨_, _, pointee, _, _, _, _, _, _, _, _⟩ := target
    cases pointee with
    | none => cases hargument
    | some pointee =>
      have hpointee := pointee.sizeOf_desugared_le
      change argument ∈ pointee.desugared.arguments at hargument
      generalize pointee.desugared = function at hargument hpointee
      have hsmaller := List.sizeOf_lt_of_mem hargument
      obtain ⟨_, _, _, _, _, arguments, _, _, _, _, _⟩ := function
      simp only [mk.sizeOf_spec, Option.some.sizeOf_spec] at hhandle hpointee hsmaller
      omega

/-- What holds of a handle if it holds of all that the handle takes as a block holds of every handle. -/
theorem induction_on_takes {motive : TypeHandle → Prop}
    (h : ∀ handle, (∀ argument, handle.Takes argument → motive argument) → motive handle) (handle : TypeHandle) :
    motive handle :=
  h handle fun argument _ => induction_on_takes h argument
termination_by sizeOf handle
decreasing_by exact sizeOf_lt_of_takes ‹_›

end TypeHandle

/-! ## Blocks made of calls -/

namespace Surroundings

variable (here : Surroundings)

/-- The block that a call stands for. -/
def blockOfCall (call : Callable) : Noted Block := do
  let returns ← here.blockReturn call.result
  let arguments ← here.blockArguments call.arguments
  let encoding ← here.signature call
  pure
    { heading := ⟨call.spelling, .block, here.source, none⟩
      signature := call.spelling
      returns
      arguments
      encoding
      variadic := call.variadic }

theorem blockOf_eq (spelling : String) (function : TypeHandle) :
    here.blockOf spelling function = here.blockOfCall ⟨.block, spelling, some function.desugared⟩ := by
  fun_induction TypeHandle.desugared function with
  | case1 sugar spelling pointee target result arguments fields element size variadic declaration ih =>
    rw [blockOf]
    exact ih
  | case2 function hend =>
    obtain ⟨kind, _, _, canonical, _, _, _, _, _, _, _⟩ := function
    unfold blockOf
    cases kind with
    | sugar sugar =>
      cases canonical with
      | some target => exact (hend _ _ _ _ _ _ _ _ _ _ _ rfl).elim
      | none => rfl
    | _ => rfl

/-- A handle is described as the block that its call stands for. -/
theorem block?_eq (handle : TypeHandle) : here.block? handle =
    match handle.blockCall? with
    | none => pure none
    | some call => some <$> here.blockOfCall call := by
  fun_induction TypeHandle.desugared handle with
  | case1 sugar spelling pointee target result arguments fields element size variadic declaration ih =>
    rw [block?]
    exact ih
  | case2 handle hend =>
    obtain ⟨kind, spelling, pointee, canonical, _, _, _, _, _, _, _⟩ := handle
    unfold block?
    rw [TypeHandle.blockCall?_eq, TypeHandle.desugared]
    · cases kind with
      | sugar sugar =>
        cases canonical with
        | some target => exact (hend _ _ _ _ _ _ _ _ _ _ _ rfl).elim
        | none => rfl
      | blockPointer =>
        cases pointee with
        | none => exact Noted.ext rfl rfl rfl rfl
        | some function => exact congrArg (some <$> ·) (here.blockOf_eq spelling function)
      | _ => rfl
    · exact hend

/-! ## Blocks met in handles -/

/-- The argument of a block that a handle is described as. -/
def taken (handle : TypeHandle) : Argument := ⟨"", (here.type none handle).value, (here.block? handle).value⟩

/-- The blocks that are noted for some handles, one handle after the other. -/
def met (handles : List TypeHandle) : List Block := handles.flatMap fun handle => (here.collectBlock? handle).blocks

theorem value_blockArguments (handles : List TypeHandle) :
    (here.blockArguments handles).value = handles.map here.taken := by
  induction handles with
  | nil => rfl
  | cons handle rest ih =>
    rw [blockArguments, List.map_cons, ← ih]
    rfl

theorem blocks_blockArguments (handles : List TypeHandle) :
    (here.blockArguments handles).blocks = here.met handles := by
  induction handles with
  | nil => rfl
  | cons handle rest ih =>
    rw [blockArguments, met, List.flatMap_cons, ← met, ← ih]
    simp [type, collectBlock?]

theorem blocks_blockReturn (result : Option TypeHandle) : (here.blockReturn result).blocks = [] := by
  cases result <;> rfl

/-- The block of a call has the returned type, the arguments and the signature of the call. -/
theorem value_blockOfCall (call : Callable) : (here.blockOfCall call).value =
    { heading := ⟨call.spelling, .block, here.source, none⟩
      signature := call.spelling
      returns := (here.blockReturn call.result).value
      arguments := call.arguments.map here.taken
      encoding := call.signature here.lookup
      variadic := call.variadic } := by
  rw [← value_blockArguments]
  rfl

/-- On the way to the block of a call, the blocks that it takes are noted and no others. -/
theorem blocks_blockOfCall (call : Callable) : (here.blockOfCall call).blocks = here.met call.arguments := by
  simp [blockOfCall, signature, blocks_blockReturn, blocks_blockArguments]

theorem blocks_collectBlock?_of_none {handle : TypeHandle} (h : handle.blockCall? = none) :
    (here.collectBlock? handle).blocks = [] := by
  rw [collectBlock?, block?_eq, h]
  rfl

theorem blocks_collectBlock?_of_some {handle : TypeHandle} {call : Callable} (h : handle.blockCall? = some call) :
    (here.collectBlock? handle).blocks = here.met call.arguments ++ [(here.blockOfCall call).value] := by
  rw [collectBlock?, block?_eq, h, ← blocks_blockOfCall]
  simp [Noted.collect]

/-- The blocks that are noted for a handle are the one that it is and those inside that one. -/
theorem blocks_collectBlock? (handle : TypeHandle) :
    (here.collectBlock? handle).blocks = Block.withinOptional (here.block? handle).value := by
  induction handle using TypeHandle.induction_on_takes with
  | h handle ih =>
    cases hcall : handle.blockCall? with
    | none =>
      rw [blocks_collectBlock?_of_none here hcall, block?_eq, hcall]
      rfl
    | some call =>
      have harguments : here.met call.arguments = Block.withinArguments (call.arguments.map here.taken) := by
        rw [Block.withinArguments_eq_flatMap, List.flatMap_map]
        exact List.flatMap_congr fun argument hargument => ih argument ⟨call, hcall, hargument⟩
      rw [blocks_collectBlock?_of_some here hcall, block?_eq, hcall, harguments]
      change _ = Block.within (here.blockOfCall call).value
      rw [Block.within_eq, value_blockOfCall]

/-- The blocks met in a handle are those of the handles that it comes to as a block, through what it takes. -/
theorem mem_blocks_collectBlock? {handle : TypeHandle} {block : Block} :
    block ∈ (here.collectBlock? handle).blocks ↔ ∃ inner, Relation.ReflTransGen TypeHandle.Takes handle inner ∧
      ∃ call ∈ inner.blockCall?, block = (here.blockOfCall call).value := by
  induction handle using TypeHandle.induction_on_takes with
  | h handle ih =>
    cases hcall : handle.blockCall? with
    | none =>
      rw [blocks_collectBlock?_of_none here hcall]
      refine ⟨nofun, ?_⟩
      rintro ⟨inner, hinner, call, hinnerCall, -⟩
      rcases hinner.cases_head with rfl | ⟨argument, ⟨outer, houter, -⟩, -⟩
      · rw [hcall] at hinnerCall
        cases hinnerCall
      · rw [hcall] at houter
        cases houter
    | some call =>
      rw [blocks_collectBlock?_of_some here hcall, List.mem_append, List.mem_singleton]
      constructor
      · rintro (hmet | rfl)
        · obtain ⟨argument, hargument, hblock⟩ := List.mem_flatMap.1 hmet
          have htakes : handle.Takes argument := ⟨call, hcall, hargument⟩
          obtain ⟨inner, hinner, hinnerBlock⟩ := (ih argument htakes).1 hblock
          exact ⟨inner, hinner.head htakes, hinnerBlock⟩
        · exact ⟨handle, .refl, call, hcall, rfl⟩
      · rintro ⟨inner, hinner, innerCall, hinnerCall, rfl⟩
        -- A handle is one call at most, so the first step of the way is among the arguments of this one.
        rcases hinner.cases_head with rfl | ⟨argument, htakes, hrest⟩
        · obtain rfl : call = innerCall := Option.some.inj (hcall.symm.trans hinnerCall)
          exact Or.inr rfl
        · obtain ⟨outer, houter, hargument⟩ := htakes
          obtain rfl : call = outer := Option.some.inj (hcall.symm.trans houter)
          refine Or.inl (List.mem_flatMap.2 ⟨argument, hargument, ?_⟩)
          exact (ih argument ⟨call, hcall, hargument⟩).2 ⟨inner, hrest, innerCall, hinnerCall, rfl⟩

theorem mem_met {handles : List TypeHandle} {block : Block} :
    block ∈ here.met handles ↔ ∃ handle ∈ handles, ∃ inner, Relation.ReflTransGen TypeHandle.Takes handle inner ∧
      ∃ call ∈ inner.blockCall?, block = (here.blockOfCall call).value := by
  simp only [met, List.mem_flatMap, mem_blocks_collectBlock?]

end Surroundings

end HeaderCatalog
