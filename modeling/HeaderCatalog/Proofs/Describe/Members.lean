import HeaderCatalog.Describe.Class
import HeaderCatalog.Proofs.Describe.Calls
import HeaderCatalog.Proofs.Resolution.Outline

set_option autoImplicit false

/-!
# Members that are blocks

What a member is comes from two readings of its handle.  One resolves it to a type, and looks through sugar, through
typedefs that are known by their names, and through the plain forms of types that the front end left open.  The other
asks for the call that it stands for, and looks through sugar only.

Where there is a call, the two agree in full (`block_of_described`): the type is written around the signature of the
block, and the signature is put together from the types that the block shows.  Where there is none, the type may still
have the name of a block (`name_eq_block_iff`): the description of the block is missing then.
-/

namespace HeaderCatalog

namespace TypeHandle

variable (lookup : Lookup) {handle : TypeHandle} {call : Callable}

/-! ## Calls, resolved -/

/-- The signature written around a block is that of its call. -/
theorem signatureIn_eq (spelling : String) (function : TypeHandle) :
    function.signatureIn lookup [] .block =
      Callable.signature lookup ⟨.block, spelling, some function.desugared⟩ := by
  fun_induction desugared function with
  | case1 sugar spelling pointee target result arguments fields element size variadic declaration ih =>
    rw [signatureIn]
    exact ih
  | case2 function hend =>
    rw [Callable.signature_eq]
    obtain ⟨kind, _, _, canonical, _, _, _, _, _, _, _⟩ := function
    unfold signatureIn
    cases kind with
    | sugar sugar =>
      cases canonical with
      | some target => exact (hend _ _ _ _ _ _ _ _ _ _ _ rfl).elim
      | none => rfl
    | _ => rfl

/-- A handle that stands for the call of a block is resolved to a block around the signature of that call. -/
theorem resolve_of_blockCall? (hint : Option String) (h : handle.blockCall? = some call) :
    (handle.resolve lookup hint).name = "block" ∧
      (handle.resolve lookup hint).encoding = Encoding.blockOf (call.signature lookup) := by
  rw [resolve_eq]
  fun_induction desugared handle with
  | case1 sugar spelling pointee target result arguments fields element size variadic declaration ih =>
    have htarget : target.blockCall? = some call := h
    unfold resolveIn
    simp only [unnamedRecord?_of_blockCall? htarget]
    exact ih htarget
  | case2 handle hend =>
    rw [blockCall?_eq, desugared] at h
    · split at h
      case isFalse => cases h
      case isTrue hkind =>
        obtain ⟨kind, spelling, pointee, _, _, _, _, _, _, _, _⟩ := handle
        obtain rfl : kind = .blockPointer := hkind
        obtain rfl := Option.some.inj h
        cases pointee with
        | none => exact ⟨rfl, rfl⟩
        | some function => exact ⟨rfl, congrArg Encoding.blockOf (signatureIn_eq lookup spelling function)⟩
    · exact hend

/-! ## Types that stand in for a handle -/

/-- Whether the kind of a handle leaves open what the type is, so that its plain form decides. -/
def isLeftOpen (handle : TypeHandle) : Bool :=
  match handle.kind with
  | .vector | .unexposed | .dependent | .invalid | .other _ => true
  | .pointer => handle.pointee.isNone
  | .constantArray | .incompleteArray => handle.element.isNone
  | _ => false

/-- The type that is taken for a handle without sugar which does not say itself what it is: what is known of a typedef
by its name, or the plain form. -/
def standIn? (handle : TypeHandle) : Option ResolvedType :=
  match handle.kind with
  | .sugar .synonym => lookup.synonym? (Naming.ofRecord handle.spelling)
  | _ => if handle.isLeftOpen then handle.canonical.map (·.resolve lookup none) else none

theorem name_resolveRest_eq_block_iff (spelling : String) (canonical : Option TypeHandle) :
    (resolveRest lookup [] .outer none spelling canonical).name = "block" ↔
      ∃ type ∈ canonical.map (·.resolve lookup none), type.name = "block" := by
  cases canonical with
  | none =>
    have hunknown : Encoding.unknownName ≠ "block" := by decide
    simpa [resolveRest, usableHint?, ResolvedType.unknown] using hunknown
  | some plain => simp [resolveRest, usableHint?, ResolvedType.withValue, resolve_eq]

/-- Nothing stands in for an unnamed record. -/
theorem standIn?_of_unnamedRecord? {kind : RecordKind} (h : handle.unnamedRecord? = some kind) :
    handle.desugared.standIn? lookup = none := by
  unfold unnamedRecord? at h
  split at h
  case h_1 kind hkind =>
    unfold standIn? isLeftOpen
    rw [hkind]
    rfl
  case h_2 => cases h

/-- Under the sugar, a type without a hint has the name of a block in two cases: the handle is a block pointer, or the
type that stands in for it has that name. -/
theorem name_resolveIn_eq_block_iff (hend : ∀ sugar, handle.kind = .sugar sugar → handle.canonical = none) :
    (handle.resolveIn lookup [] .outer none).name = "block" ↔
      handle.kind = .blockPointer ∨ ∃ type ∈ handle.standIn? lookup, type.name = "block" := by
  have hneither {P : Prop} (hblock : ¬P) (name : String) (h : name ≠ "block") : name = "block" ↔
      P ∨ ∃ type ∈ (none : Option ResolvedType), type.name = "block" := by
    simpa [hblock] using h
  obtain ⟨kind, spelling, pointee, canonical, _, _, _, element, _, _, _⟩ := handle
  -- All kinds but the typedef, the block and those left open have a name of their own, which is not that of a block.
  have hopen (hblock : kind ≠ .blockPointer) :
      (resolveRest lookup [] .outer none spelling canonical).name = "block" ↔
        kind = .blockPointer ∨ ∃ type ∈ canonical.map (·.resolve lookup none), type.name = "block" := by
    simpa [hblock] using name_resolveRest_eq_block_iff lookup spelling canonical
  unfold resolveIn
  cases kind with
  | blockPointer => cases pointee <;> exact iff_of_true rfl (Or.inl rfl)
  | pointer =>
    cases pointee with
    | none => exact hopen nofun
    | some target =>
      dsimp only
      by_cases hchar : target.desugared.kind.isChar = true
      · rw [if_pos hchar]
        exact hneither nofun "pointer" (by decide)
      by_cases hfunction : target.desugared.kind.isFunction = true
      · rw [if_neg hchar, if_pos hfunction]
        exact hneither nofun "function_callback" (by decide)
      · rw [if_neg hchar, if_neg hfunction]
        exact hneither nofun "pointer" (by decide)
  | constantArray =>
    cases element with
    | none => exact hopen nofun
    | some element => exact hneither nofun "constant_array" (by decide)
  | incompleteArray =>
    cases element with
    | none => exact hopen nofun
    | some element => exact hneither nofun "incomplete_array" (by decide)
  | vector | unexposed | dependent | invalid | other _ => exact hopen nofun
  | sugar sugar =>
    obtain rfl : canonical = none := hend sugar rfl
    cases sugar with
    | synonym =>
      dsimp only
      cases hknown : lookup.synonym? (Naming.ofRecord spelling) with
      | none => simpa [standIn?, hknown] using hopen nofun
      | some type => simp [standIn?, hknown, ResolvedType.withValue]
    | elaborated =>
      dsimp only
      cases Naming.elaboratedRecord? spelling with
      | none => exact hopen nofun
      | some kind => exact hneither nofun kind.keyword (by cases kind <;> decide)
    | attributed => exact hopen nofun
  | enum => cases canonical <;> exact hneither nofun "enum" (by decide)
  | scalar scalar => exact hneither nofun scalar.typeName (by cases scalar <;> decide)
  | record kind => exact hneither nofun kind.keyword (by cases kind <;> decide)
  | function _ => exact hneither nofun "function" (by decide)
  | objcId | objcTypeParam => exact hneither nofun "id" (by decide)
  | objcClass => exact hneither nofun "class" (by decide)
  | objcSelector => exact hneither nofun "SEL" (by decide)
  | objcObjectPointer => exact hneither nofun "objc_pointer" (by decide)
  | objcInterface | objcObject => exact hneither nofun "obj_interface" (by decide)

/-- Without a hint, the type of a handle has the name of a block in two cases: the handle stands for the call of one, or
the type that stands in for it under its sugar has that name. -/
theorem name_resolve_eq_block_iff (handle : TypeHandle) : (handle.resolve lookup none).name = "block" ↔
    handle.blockCall?.isSome ∨ ∃ type ∈ handle.desugared.standIn? lookup, type.name = "block" := by
  rw [resolve_eq]
  fun_induction desugared handle with
  | case1 sugar spelling pointee target result arguments fields element size variadic declaration ih =>
    unfold resolveIn
    dsimp only
    -- Sugar over an unnamed record ends here, as a record; any other sugar is looked through by both readings.
    cases hunnamed : target.unnamedRecord? with
    | none => exact ih
    | some kind =>
      have hkeyword : kind.keyword ≠ "block" := by cases kind <;> decide
      change kind.keyword = "block" ↔ target.blockCall?.isSome ∨ _
      rw [blockCall?_of_unnamedRecord? hunnamed, standIn?_of_unnamedRecord? lookup hunnamed]
      simpa using hkeyword
  | case2 handle hend =>
    have hself : handle.desugared = handle := by
      rw [desugared]
      exact hend
    have hcall : handle.blockCall?.isSome ↔ handle.kind = .blockPointer := by
      rw [blockCall?_eq, hself]
      split <;> simp [*]
    rw [hcall]
    refine name_resolveIn_eq_block_iff lookup fun sugar hkind => ?_
    obtain ⟨_, _, _, canonical, _, _, _, _, _, _, _⟩ := handle
    obtain rfl : _ = TypeKind.sugar sugar := hkind
    cases canonical with
    | none => rfl
    | some target => exact (hend _ _ _ _ _ _ _ _ _ _ _ rfl).elim

end TypeHandle

/-! ## Members and their handles -/

/-- A block whose signature is put together from the types that it shows, where those that it takes as blocks are
written around the signatures of these. -/
structure Block.IsSigned (block : Block) : Prop where
  encoding_eq : block.encoding = Encoding.erase block.returns.encoding ++ ['@', '?'] ++
    block.arguments.flatMap fun argument => Encoding.erase argument.type.encoding
  nested : ∀ argument ∈ block.arguments, ∀ inner ∈ argument.block,
    argument.type.encoding = Encoding.blockOf inner.encoding

namespace Surroundings

variable {here : Surroundings} {handle : TypeHandle} {hint : Option String} {member : Member} {block : Block}

variable (here handle) in
/-- The members that a handle is described as, each with the hint that it is given.  What a block takes has none. -/
inductive Describes : Option String → Member → Prop where
  | argument (hint : Option String) {node : Node} (h : node.type = some handle) :
      Describes hint (here.argument hint node).value.member
  | returned (hint : Option String) : Describes hint (here.returned hint handle).value.member
  | property {node : Node} (h : node.type = some handle) : Describes node.encoding (here.property node).value.member
  | ivar {node : Node} (h : node.type = some handle) : Describes node.encoding (here.ivar node).value.member
  | taken : Describes none (here.taken handle).member

/-- Whatever the member, its type and its block are those of the handle. -/
theorem Describes.member_eq (h : here.Describes handle hint member) :
    member = ⟨handle.resolve here.lookup hint, (here.block? handle).value⟩ := by
  have hdeclared (hint : Option String) {type : Option TypeHandle} (htype : type = some handle) :
      (here.declaredType hint type).value = (handle.resolve here.lookup hint, (here.block? handle).value) := by
    rw [htype]
    rfl
  cases h with
  | argument hint htype =>
    change Member.mk (here.declaredType hint _).value.1 (here.declaredType hint _).value.2 = _
    rw [hdeclared hint htype]
  | returned hint => rfl
  | property htype =>
    change Member.mk (here.declaredType _ _).value.1 (here.declaredType _ _).value.2 = _
    rw [hdeclared _ htype]
  | ivar htype =>
    change Member.mk (here.declaredType _ _).value.1 (here.declaredType _ _).value.2 = _
    rw [hdeclared _ htype]
  | taken => rfl

theorem exists_call_of_block? (h : (here.block? handle).value = some block) :
    ∃ call, handle.blockCall? = some call ∧ block = (here.blockOfCall call).value := by
  rw [block?_eq] at h
  cases hcall : handle.blockCall? with
  | none =>
    rw [hcall] at h
    cases h
  | some call =>
    rw [hcall] at h
    exact ⟨call, rfl, (Option.some.inj h).symm⟩

/-- The type of a block is written around its signature, whatever the hint. -/
theorem encoding_of_block? (hint : Option String) (h : (here.block? handle).value = some block) :
    (handle.resolve here.lookup hint).encoding = Encoding.blockOf block.encoding := by
  obtain ⟨call, hcall, rfl⟩ := exists_call_of_block? h
  rw [(TypeHandle.resolve_of_blockCall? here.lookup hint hcall).2, value_blockOfCall]

theorem erase_blockReturn (result : Option TypeHandle) :
    Encoding.erase (here.blockReturn result).value.encoding = TypeHandle.returnedEncoding here.lookup [] result := by
  cases result with
  | none => exact erase_void
  | some handle =>
    rw [TypeHandle.returnedEncoding, ← TypeHandle.resolve_eq]
    rfl

/-- The block of a call is signed: its signature is the one that the types inside it come to. -/
theorem isSigned_blockOfCall {call : Callable} (hkind : call.kind = .block) :
    (here.blockOfCall call).value.IsSigned := by
  rw [value_blockOfCall]
  constructor
  · have hreturned := here.erase_blockReturn call.result
    have htaken : TypeHandle.argumentEncodings here.lookup [] call.arguments =
        (call.arguments.map here.taken).flatMap fun argument => Encoding.erase argument.type.encoding := by
      rw [TypeHandle.argumentEncodings_eq_flatMap, List.flatMap_map]
      exact List.flatMap_congr fun argument _ =>
        congrArg (Encoding.erase ·.encoding) (TypeHandle.resolve_eq here.lookup none argument).symm
    change call.signature here.lookup = _
    rw [Callable.signature_eq, if_pos hkind, hreturned, htaken]
  · intro argument hargument inner hinner
    obtain ⟨handle, -, rfl⟩ := List.mem_map.1 hargument
    exact encoding_of_block? none hinner

/-- **A member that carries a block is written around its signature**, and every signature inside the block, at any
depth, is the one that the types beside it come to.  This holds whatever is known and whatever the hint is. -/
theorem block_of_described (h : here.Describes handle hint member) (hblock : member.block = some block) :
    member.type.encoding = Encoding.blockOf block.encoding ∧ ∀ inner ∈ block.within, inner.IsSigned := by
  obtain rfl := h.member_eq
  refine ⟨encoding_of_block? hint hblock, fun inner hinner => ?_⟩
  have hnoted : inner ∈ (here.collectBlock? handle).blocks := by
    rw [blocks_collectBlock?, show (here.block? handle).value = some block from hblock]
    exact hinner
  obtain ⟨_, -, call, hcall, rfl⟩ := here.mem_blocks_collectBlock?.1 hnoted
  exact isSigned_blockOfCall (TypeHandle.kind_of_blockCall? hcall).1

/-- A parameter whose type is a typedef of a block that takes another block. -/
theorem block_of_described_loader :
    let here : Surroundings := ⟨{}, .empty, .unresolved⟩
    let progress : TypeHandle :=
      { kind := .blockPointer, spelling := "void (^)(double)",
        pointee := some { kind := .function true, arguments := [{ kind := .scalar .double }] } }
    let loading : TypeHandle :=
      { kind := .blockPointer, spelling := "int (^)(void (^)(double))",
        pointee := some
          { kind := .function true, result := some { kind := .scalar .int }, arguments := [progress] } }
    let loader : TypeHandle := { kind := .sugar .synonym, spelling := "Loader", canonical := some loading }
    let member := (here.argument (some "@?") { kind := .parameter, type := some loader }).value.member
    member.block.map (·.encoding) = some "i@?@?<v@?d>".toList ∧
      ∃ block, member.block = some block ∧ member.type.encoding = Encoding.blockOf block.encoding ∧
        ∀ inner ∈ block.within, inner.IsSigned := by
  intro here progress loading loader member
  have hmember : here.Describes loader (some "@?") member := .argument (some "@?") rfl
  have hencoding : member.block.map (·.encoding) = some "i@?@?<v@?d>".toList := by decide +kernel
  obtain ⟨block, hblock, -⟩ := Option.map_eq_some_iff.1 hencoding
  exact ⟨hencoding, block, hblock, block_of_described hmember hblock⟩

/-- **A member described without a hint has the type name of a block** exactly if it carries a block, or if the type
that stands in for its handle has that name. -/
theorem name_eq_block_iff (h : here.Describes handle none member) : member.type.name = "block" ↔
    member.block.isSome ∨ ∃ type ∈ handle.desugared.standIn? here.lookup, type.name = "block" := by
  obtain rfl := h.member_eq
  have hsome : (here.block? handle).value.isSome = handle.blockCall?.isSome := by
    rw [block?_eq]
    cases handle.blockCall? <;> rfl
  rw [hsome]
  exact TypeHandle.name_resolve_eq_block_iff here.lookup handle

/-- A parameter of a type that the front end left open, with a block for its plain form. -/
theorem name_eq_block_iff_completion :
    let here : Surroundings := ⟨{}, .empty, .unresolved⟩
    let block : TypeHandle :=
      { kind := .blockPointer, spelling := "void (^)(bool)",
        pointee := some { kind := .function true, arguments := [{ kind := .scalar .bool }] } }
    let completion : TypeHandle := { kind := .unexposed, spelling := "void (^)(bool)", canonical := some block }
    let member := (here.argument none { kind := .parameter, type := some completion }).value.member
    member.type.name = "block" ↔
      member.block.isSome ∨ ∃ type ∈ completion.desugared.standIn? here.lookup, type.name = "block" := by
  intro here block completion member
  exact name_eq_block_iff (.argument none rfl)

/-- The type of that parameter has the name and the encoding of a block, but the parameter carries none. -/
theorem block_name_without_block :
    let here : Surroundings := ⟨{}, .empty, .unresolved⟩
    let block : TypeHandle :=
      { kind := .blockPointer, spelling := "void (^)(bool)",
        pointee := some { kind := .function true, arguments := [{ kind := .scalar .bool }] } }
    let completion : TypeHandle := { kind := .unexposed, spelling := "void (^)(bool)", canonical := some block }
    let member := (here.argument none { kind := .parameter, type := some completion }).value.member
    member.type = ⟨"block", "void (^)(bool)", "@?<v@?B>".toList⟩ ∧ member.block.isNone := by
  decide +kernel

end Surroundings

end HeaderCatalog
