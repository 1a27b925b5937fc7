import HeaderCatalog.Proofs.Resolution.Sugar

set_option autoImplicit false

/-!
# Where a type stands

A type may be written differently as a declaration of its own and as a part of another type: fewer records are opened
behind pointers and in fields, and none inside itself.  This module says when it makes no difference.  A place is
neutral for an outline if it opens the same records (`Place.NeutralFor`), and what is written there is what is written
outside (`alike_resolveAt`).  A type that is built around a hole then depends on what stands in the hole only through
what this is at the place of the hole (`alike_plug`).
-/

namespace HeaderCatalog

/-- Two types that differ in their spelling at most. -/
def ResolvedType.Alike (first second : ResolvedType) : Prop :=
  first.name = second.name ∧ first.encoding = second.encoding

namespace ResolvedType.Alike

instance (first second : ResolvedType) : Decidable (first.Alike second) := inferInstanceAs (Decidable (_ ∧ _))

theorem refl (type : ResolvedType) : type.Alike type := ⟨rfl, rfl⟩

theorem symm {first second : ResolvedType} (h : first.Alike second) : second.Alike first := ⟨h.1.symm, h.2.symm⟩

theorem trans {first second third : ResolvedType} (h : first.Alike second) (hnext : second.Alike third) :
    first.Alike third :=
  ⟨h.1.trans hnext.1, h.2.trans hnext.2⟩

end ResolvedType.Alike

/-- The place some pointers further on. -/
def Scope.behind (scope : Scope) (pointers : Nat) : Scope := { scope with depth := scope.depth + pointers }

theorem Scope.opensRecords_iff (scope : Scope) :
    scope.opensRecords = true ↔ scope.depth = 0 ∨ scope.depth = 1 ∧ scope.inRecord = false := by
  simp [opensRecords]

/-- Pointers that are no longer counted make no difference to what is opened behind them. -/
theorem Scope.opensRecords_behindPointer (scope : Scope) (pointers : Nat) :
    (scope.behindPointer.behind pointers).opensRecords = (scope.behind (pointers + 1)).opensRecords := by
  rw [Bool.eq_iff_iff, opensRecords_iff, opensRecords_iff]
  grind [behind, behindPointer, maxDepth]

/-- Where a type stands: the records open around it, and the bound on those inside it. -/
structure Place where
  visiting : List RecordKey
  scope : Scope

/-- The place of a type that is part of no other. -/
def Place.outer : Place := ⟨[], .outer⟩

/-- The type of a handle at a place. -/
def TypeHandle.resolveAt (lookup : Lookup) (place : Place) (handle : TypeHandle) : ResolvedType :=
  handle.resolveIn lookup place.visiting place.scope none

theorem TypeHandle.resolve_eq_resolveAt (lookup : Lookup) (handle : TypeHandle) :
    handle.resolve lookup none = handle.resolveAt lookup .outer :=
  resolve_eq lookup none handle

namespace Outline

/-! ## Neutral places -/

/-- How many pointers deep the records stand whose form the place of the outline decides.  Records in fields and in
calls have places of their own. -/
def depths : Outline → List Nat
  | plain _ => []
  | pointer target => (depths target).map (· + 1)
  | array _ element => depths element
  | record _ _ | known _ _ => [0]
  | call _ _ _ => []

/-- A scope matters only at the depths where there are records. -/
theorem placedIn_of_depths (watch : Watch) {scope other : Scope} : ∀ outline : Outline,
    (∀ depth ∈ outline.depths, (scope.behind depth).opensRecords = (other.behind depth).opensRecords) →
    outline.placedIn watch scope = outline.placedIn watch other
  | plain _, _ => rfl
  | pointer target, h => by
    refine congrArg pointer (placedIn_of_depths watch target fun depth hdepth => ?_)
    have hpointer := h (depth + 1) (List.mem_map_of_mem hdepth)
    rwa [← scope.opensRecords_behindPointer, ← other.opensRecords_behindPointer] at hpointer
  | array length element, h => congrArg (array length) (placedIn_of_depths watch element h)
  | record key fields, h => by
    have hadmits : watch.admits scope key = watch.admits other key := by
      unfold Watch.admits
      exact congrArg (· && _) (h 0 List.mem_cons_self)
    rw [placedIn, placedIn, hadmits]
  | known key members, h => by
    have hadmits : watch.admits scope key = watch.admits other key := by
      unfold Watch.admits
      exact congrArg (· && _) (h 0 List.mem_cons_self)
    rw [placedIn, placedIn, hadmits]
  | call _ _ _, _ => rfl

mutual

/-- Open records matter only if they recur. -/
theorem cut_congr {around other : List RecordKey} : ∀ outline : Outline,
    (∀ pair ∈ outline.records, pair.1 ∈ around ↔ pair.1 ∈ other) → outline.cut around = outline.cut other
  | plain _, _ => rfl
  | pointer target, h => congrArg pointer (cut_congr target h)
  | array length element, h => congrArg (array length) (cut_congr element h)
  | record key fields, h => by
    have hfields : allCut (key :: around) fields = allCut (key :: other) fields := by
      refine allCut_congr fields fun pair hpair => ?_
      rw [List.mem_cons, List.mem_cons, h pair (List.mem_cons_of_mem _ hpair)]
    rw [cut, cut, hfields]
    simp only [h (key, fields) List.mem_cons_self]
  | known key members, h => by
    rw [cut, cut]
    simp only [h (key, []) List.mem_cons_self]
  | call callable returned taken, h => by
    rw [cut, cut, cut_congr returned fun pair hpair => h pair (List.mem_append_left _ hpair),
      allCut_congr taken fun pair hpair => h pair (List.mem_append_right _ hpair)]

theorem allCut_congr {around other : List RecordKey} : ∀ outlines : List Outline,
    (∀ pair ∈ allRecords outlines, pair.1 ∈ around ↔ pair.1 ∈ other) → allCut around outlines = allCut other outlines
  | [], _ => rfl
  | outline :: rest, h => by
    rw [allCut, allCut, cut_congr outline fun pair hpair => h pair (List.mem_append_left _ hpair),
      allCut_congr rest fun pair hpair => h pair (List.mem_append_right _ hpair)]

end

end Outline

/-- A place where an outline is written as it is outside: its records are opened there as they are outside, and none of
them is open already. -/
structure Place.NeutralFor (place : Place) (outline : Outline) : Prop where
  opens : ∀ depth ∈ outline.depths,
    (place.scope.behind depth).opensRecords = (Scope.outer.behind depth).opensRecords
  closed : ∀ key ∈ outline.keys, key ∉ place.visiting

instance (place : Place) (outline : Outline) : Decidable (place.NeutralFor outline) :=
  decidable_of_iff (_ ∧ _) ⟨fun h => ⟨h.1, h.2⟩, fun h => ⟨h.opens, h.closed⟩⟩

theorem Outline.placedIn_of_neutral {place : Place} {outline : Outline} (h : place.NeutralFor outline) :
    outline.placedIn (some place.visiting) place.scope = outline.placedIn (some []) .outer := by
  have hcut : outline.cut place.visiting = outline.cut [] := by
    refine cut_congr outline fun pair hpair => ?_
    simp [h.closed pair.1 (List.mem_map_of_mem hpair)]
  rw [placedIn_of_depths _ outline h.opens, placedIn_some, placedIn_some, hcut]

namespace TypeHandle

mutual

/-- The name of a type is the same at every place. -/
theorem name_resolveIn (lookup : Lookup) (visiting other : List RecordKey) (scope place : Scope)
    (hint : Option String) : ∀ handle : TypeHandle,
      (handle.resolveIn lookup visiting scope hint).name = (handle.resolveIn lookup other place hint).name
  | { kind, spelling, pointee, canonical, element, .. } => by
    unfold resolveIn
    cases kind with
    | pointer =>
      cases pointee with
      | none => exact name_resolveRest lookup visiting other scope place hint spelling canonical
      | some target =>
        dsimp only
        split
        · rfl
        · split <;> rfl
    | blockPointer => cases pointee <;> rfl
    | enum => cases canonical <;> rfl
    | sugar sugar =>
      cases canonical with
      | some target =>
        dsimp only
        cases target.unnamedRecord? with
        | some kind => rfl
        | none => exact name_resolveIn lookup visiting other scope place hint target
      | none =>
        cases sugar with
        | synonym =>
          dsimp only
          split
          · rfl
          · exact name_resolveRest lookup visiting other scope place hint spelling none
        | elaborated =>
          dsimp only
          split
          · rfl
          · exact name_resolveRest lookup visiting other scope place hint spelling none
        | attributed => exact name_resolveRest lookup visiting other scope place hint spelling none
    | constantArray | incompleteArray =>
      cases element with
      | none => exact name_resolveRest lookup visiting other scope place hint spelling canonical
      | some element => rfl
    | vector | unexposed | dependent | invalid | other _ =>
      exact name_resolveRest lookup visiting other scope place hint spelling canonical
    | scalar _ | objcId | objcClass | objcSelector | objcObjectPointer | objcInterface | objcObject | objcTypeParam
    | record _ | function _ => rfl
termination_by structural handle => handle

theorem name_resolveRest (lookup : Lookup) (visiting other : List RecordKey) (scope place : Scope)
    (hint : Option String) (spelling : String) : ∀ canonical : Option TypeHandle,
      (resolveRest lookup visiting scope hint spelling canonical).name =
        (resolveRest lookup other place hint spelling canonical).name
  | none => by
    unfold resolveRest
    split <;> rfl
  | some canonical => by
    unfold resolveRest
    split
    · rfl
    · exact name_resolveIn lookup visiting other scope place none canonical
termination_by structural canonical => canonical

end

/-- At a neutral place a type is what it is outside. -/
theorem alike_resolveAt {lookup : Lookup} {place : Place} {handle : TypeHandle}
    (h : place.NeutralFor (handle.outline lookup none)) :
    (handle.resolveAt lookup place).Alike (handle.resolve lookup none) := by
  refine ⟨?_, ?_⟩
  · rw [resolve_eq]
    exact name_resolveIn lookup _ _ _ _ none handle
  · rw [resolveAt, encoding_resolveIn, encoding_resolve, Outline.placedIn_of_neutral h]

end TypeHandle

/-! ## Types around a hole -/

/-- A handle that is built of another: all but that other one. -/
inductive Frame where
  | pointer (shell : TypeHandle)
  | array (shell : TypeHandle)
  | field (kind : RecordKind) (shell : TypeHandle) (before : List FieldHandle) (name : String)
      (after : List FieldHandle)

namespace Frame

/-- The handle around a part. -/
def around : Frame → TypeHandle → TypeHandle
  | pointer shell, part => { shell with kind := .pointer, pointee := some part }
  | array shell, part => { shell with kind := .constantArray, element := some part }
  | field kind shell before name after, part =>
    { shell with kind := .record kind, fields := before ++ ⟨name, part⟩ :: after }

/-- The place of the part, unless it is left out because the record around it is written bare. -/
def inner? (place : Place) : Frame → Option Place
  | pointer _ => some { place with scope := place.scope.behindPointer }
  | array _ => some place
  | field kind shell _ _ _ =>
    let key := recordKeyOf kind shell.spelling
    if Watch.admits (some place.visiting) place.scope key then some ⟨key :: place.visiting, .field⟩ else none

/-- The frames of a type around a hole, from the outermost to the innermost, with a handle in the hole. -/
def plug (frames : List Frame) (handle : TypeHandle) : TypeHandle := frames.foldr around handle

/-- The place of the hole, unless it is left out. -/
def hole? (place : Place) : List Frame → Option Place
  | [] => some place
  | frame :: rest => (frame.inner? place).bind (hole? · rest)

/-- Whether a frame is that of a pointer. -/
def isPointer : Frame → Bool
  | pointer _ => true
  | _ => false

end Frame

namespace TypeHandle

/-- Whether a pointer to a type has a form of its own: a C string or a function pointer. -/
def isSpecialPointee (handle : TypeHandle) : Bool :=
  handle.desugared.kind.isChar || handle.desugared.kind.isFunction

variable (lookup : Lookup) (visiting : List RecordKey) (scope : Scope) (hint : Option String)

theorem resolveIn_pointer (shell : TypeHandle) {part : TypeHandle} (hpart : part.isSpecialPointee = false) :
    ((Frame.pointer shell).around part).resolveIn lookup visiting scope hint =
      ⟨"pointer", shell.spelling, '^' :: (part.resolveIn lookup visiting scope.behindPointer none).encoding⟩ := by
  rw [isSpecialPointee, Bool.or_eq_false_iff] at hpart
  cases shell
  unfold Frame.around
  conv =>
    lhs
    unfold resolveIn
  simp [hpart]

theorem resolveIn_array (shell part : TypeHandle) :
    ((Frame.array shell).around part).resolveIn lookup visiting scope hint =
      ⟨"constant_array", shell.spelling, '[' :: (toString (shell.size.getD 0).toNat).toList ++
        (part.resolveIn lookup visiting scope none).encoding ++ [']']⟩ := by
  cases shell
  rfl

theorem memberEncodings_eq_map (fields : List FieldHandle) : memberEncodings lookup visiting fields =
    fields.map (·.type.resolveIn lookup visiting .field none |>.encoding) := by
  induction fields with
  | nil => rfl
  | cons field rest ih =>
    obtain ⟨name, type⟩ := field
    rw [memberEncodings, ih, List.map_cons]

theorem resolveIn_field (kind : RecordKind) (shell part : TypeHandle) (before : List FieldHandle) (name : String)
    (after : List FieldHandle) :
    ((Frame.field kind shell before name after).around part).resolveIn lookup visiting scope hint =
      ⟨kind.keyword, shell.spelling,
        lookup.recordEncoding visiting scope (recordKeyOf kind shell.spelling)
          (some fun visiting => memberEncodings lookup visiting (before ++ ⟨name, part⟩ :: after))⟩ := by
  cases shell
  unfold Frame.around
  conv =>
    lhs
    unfold resolveIn
  simp

end TypeHandle

/-- A frame is built of nothing but what stands in it. -/
theorem Frame.isSpecialPointee_around (frame : Frame) (part : TypeHandle) :
    (frame.around part).isSpecialPointee = false := by
  cases frame <;> rfl

/-- One frame: the type around a part depends on the part only through what this is at its place. -/
theorem Frame.alike_around {lookup : Lookup} {place : Place} (frame : Frame) {first second : TypeHandle}
    (hfirst : frame.isPointer → first.isSpecialPointee = false)
    (hsecond : frame.isPointer → second.isSpecialPointee = false)
    (h : ∀ inner ∈ frame.inner? place, (first.resolveAt lookup inner).Alike (second.resolveAt lookup inner)) :
    ((frame.around first).resolveAt lookup place).Alike ((frame.around second).resolveAt lookup place) := by
  unfold TypeHandle.resolveAt at h ⊢
  cases frame with
  | pointer shell =>
    rw [TypeHandle.resolveIn_pointer lookup _ _ _ shell (hfirst rfl),
      TypeHandle.resolveIn_pointer lookup _ _ _ shell (hsecond rfl)]
    exact ⟨rfl, congrArg ('^' :: ·) (h _ rfl).2⟩
  | array shell =>
    rw [TypeHandle.resolveIn_array, TypeHandle.resolveIn_array, (h _ rfl).2]
    exact .refl _
  | field kind shell before name after =>
    rw [TypeHandle.resolveIn_field, TypeHandle.resolveIn_field]
    refine ⟨rfl, ?_⟩
    unfold Lookup.recordEncoding
    by_cases hopen : Watch.admits (some place.visiting) place.scope (recordKeyOf kind shell.spelling) = true
    · have hpart := (h ⟨recordKeyOf kind shell.spelling :: place.visiting, .field⟩ (by simp [inner?, hopen])).2
      dsimp only at hpart ⊢
      simp only [TypeHandle.memberEncodings_eq_map, List.map_append, List.map_cons, hpart]
    · rw [Watch.admits_some] at hopen
      rw [if_neg hopen, if_neg hopen]

/-- **A type around a hole** depends on what stands in the hole only through what this is at the place of the hole, and
on nothing of it if the hole is left out. -/
theorem alike_plug {lookup : Lookup} {first second : TypeHandle} (frames : List Frame) {place : Place}
    (hfirst : frames.getLast?.any (·.isPointer) → first.isSpecialPointee = false)
    (hsecond : frames.getLast?.any (·.isPointer) → second.isSpecialPointee = false)
    (h : ∀ hole ∈ Frame.hole? place frames, (first.resolveAt lookup hole).Alike (second.resolveAt lookup hole)) :
    ((Frame.plug frames first).resolveAt lookup place).Alike ((Frame.plug frames second).resolveAt lookup place) := by
  induction frames generalizing place with
  | nil => exact h place rfl
  | cons frame rest ih =>
    -- The outermost frame is around the hole itself if there are no others, and around no special pointee if there are.
    have hpart : ∀ {handle : TypeHandle},
        ((frame :: rest).getLast?.any (·.isPointer) → handle.isSpecialPointee = false) →
          frame.isPointer → (Frame.plug rest handle).isSpecialPointee = false := by
      intro handle hhandle hpointer
      cases rest with
      | nil => exact hhandle hpointer
      | cons next others => exact next.isSpecialPointee_around _
    refine frame.alike_around (hpart hfirst) (hpart hsecond) fun inner hinner => ?_
    have hlast : rest.getLast?.any (·.isPointer) → (frame :: rest).getLast?.any (·.isPointer) := by
      cases rest with
      | nil => simp
      | cons next others => simp
    refine ih (hfirst ∘ hlast) (hsecond ∘ hlast) fun hole hhole => h hole ?_
    exact Option.mem_bind_iff.2 ⟨inner, hinner, hhole⟩

end HeaderCatalog
