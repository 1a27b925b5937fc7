import HeaderCatalog.Proofs.Resolution.Handles

set_option autoImplicit false

/-!
# Handles that need no lookup

Resolving asks what is known where the front end left something open: the fields of a record that it did not look into,
and the type behind a typedef that it did not follow.  A handle in which nothing is left open is self-contained: every
record in it has a name and fields, and all sugar in it stands for something.  Such a handle means the same whatever is
known (`resolveIn_eq_of_isSelfContained`).
-/

namespace HeaderCatalog

namespace TypeHandle

/-- Whether a handle itself leaves nothing open: a record has a name and fields, and sugar stands for something. -/
def isExplicit (handle : TypeHandle) : Bool :=
  match handle.kind with
  | .record _ => !Naming.isAnonymous (Naming.ofRecord handle.spelling) && !handle.fields.isEmpty
  | .sugar _ => handle.canonical.isSome
  | _ => true

/-- A handle leaves nothing open, and neither does any handle inside it. -/
def IsSelfContained (handle : TypeHandle) : Prop := ∀ part ∈ handle.handles, part.isExplicit = true

instance (handle : TypeHandle) : Decidable handle.IsSelfContained :=
  inferInstanceAs (Decidable (∀ part ∈ handle.handles, part.isExplicit = true))

section

variable {part whole handle : TypeHandle}

theorem IsSelfContained.isExplicit (h : handle.IsSelfContained) : handle.isExplicit = true :=
  h handle handle.mem_handles_self

theorem IsSelfContained.mono (h : whole.IsSelfContained) (hpart : part.handles ⊆ whole.handles) :
    part.IsSelfContained :=
  fun inner hinner => h inner (hpart hinner)

/-- Under its sugar, a self-contained handle is no record without a name. -/
theorem IsSelfContained.unnamedRecord? (h : handle.IsSelfContained) : handle.unnamedRecord? = none := by
  have hexplicit := (h.mono handle.handles_desugared_subset).isExplicit
  unfold TypeHandle.isExplicit at hexplicit
  unfold TypeHandle.unnamedRecord?
  split
  case h_1 kind hkind =>
    rw [hkind] at hexplicit
    have hnamed : Naming.isAnonymous (Naming.ofRecord handle.desugared.spelling) = false := by
      simpa using (Bool.and_eq_true_iff.1 hexplicit).1
    rw [if_neg (by simp [hnamed])]
  case h_2 => rfl

end

/-! ## The type of a self-contained handle -/

variable (first second : Lookup)

/-- A record that comes with members is written with these. -/
theorem recordEncoding_some (visiting : List RecordKey) (scope : Scope) (key : RecordKey)
    {members others : List RecordKey → List Encoding} (h : ∀ visiting, members visiting = others visiting) :
    first.recordEncoding visiting scope key (some members) =
      second.recordEncoding visiting scope key (some others) := by
  obtain rfl := funext h
  rfl

mutual

/-- A self-contained handle means the same whatever is known. -/
theorem resolveIn_eq_of_isSelfContained (visiting : List RecordKey) (scope : Scope) (hint : Option String) :
    ∀ handle : TypeHandle, handle.IsSelfContained →
      handle.resolveIn first visiting scope hint = handle.resolveIn second visiting scope hint
  | { kind, spelling, pointee, canonical, result, arguments, fields, element, size, variadic, declaration }, h => by
    have hexplicit := h.isExplicit
    have hpointee {part : TypeHandle} (hpart : pointee = some part) : part.IsSelfContained :=
      h.mono (handles_subset_of_pointee hpart)
    have hcanonical {part : TypeHandle} (hpart : canonical = some part) : part.IsSelfContained :=
      h.mono (handles_subset_of_canonical hpart)
    have helement {part : TypeHandle} (hpart : element = some part) : part.IsSelfContained :=
      h.mono (handles_subset_of_element hpart)
    have hrest : resolveRest first visiting scope hint spelling canonical =
        resolveRest second visiting scope hint spelling canonical :=
      resolveRest_eq_of_isSelfContained visiting scope hint spelling canonical fun _ => hcanonical
    unfold resolveIn
    cases kind with
    | pointer =>
      cases pointee with
      | none => exact hrest
      | some target =>
        dsimp only
        rw [signatureIn_eq_of_isSelfContained visiting .functionPointer target (hpointee rfl),
          resolveIn_eq_of_isSelfContained visiting scope.behindPointer none target (hpointee rfl)]
    | blockPointer =>
      cases pointee with
      | none => rfl
      | some function =>
        dsimp only
        rw [signatureIn_eq_of_isSelfContained visiting .block function (hpointee rfl)]
    | record kind =>
      have hfields : fields.isEmpty = false := by simpa using (Bool.and_eq_true_iff.1 hexplicit).2
      dsimp only
      rw [hfields]
      refine congrArg _ (recordEncoding_some first second visiting scope _ fun visiting => ?_)
      exact memberEncodings_eq_of_isSelfContained visiting fields fun field hfield =>
        h.mono (handles_subset_of_field hfield)
    | enum =>
      cases canonical with
      | none => rfl
      | some integer =>
        dsimp only
        rw [resolveIn_eq_of_isSelfContained visiting scope none integer (hcanonical rfl)]
    | sugar sugar =>
      cases canonical with
      | none => cases hexplicit
      | some target =>
        dsimp only
        rw [(hcanonical rfl).unnamedRecord?]
        dsimp only
        rw [resolveIn_eq_of_isSelfContained visiting scope hint target (hcanonical rfl)]
    | constantArray =>
      cases element with
      | none => exact hrest
      | some element =>
        dsimp only
        rw [resolveIn_eq_of_isSelfContained visiting scope none element (helement rfl)]
    | incompleteArray =>
      cases element with
      | none => exact hrest
      | some element =>
        dsimp only
        rw [resolveIn_eq_of_isSelfContained visiting scope.behindPointer none element (helement rfl)]
    | vector | unexposed | dependent | invalid | other _ => exact hrest
    | _ => rfl

theorem resolveRest_eq_of_isSelfContained (visiting : List RecordKey) (scope : Scope) (hint : Option String)
    (spelling : String) : ∀ canonical : Option TypeHandle,
      (∀ target, canonical = some target → target.IsSelfContained) →
        resolveRest first visiting scope hint spelling canonical =
          resolveRest second visiting scope hint spelling canonical
  | none, _ => rfl
  | some target, h => by
    unfold resolveRest
    rw [resolveIn_eq_of_isSelfContained visiting scope none target (h target rfl)]

theorem signatureIn_eq_of_isSelfContained (visiting : List RecordKey) (callable : CallableKind) :
    ∀ handle : TypeHandle, handle.IsSelfContained →
      handle.signatureIn first visiting callable = handle.signatureIn second visiting callable
  | { kind, spelling, pointee, canonical, result, arguments, fields, element, size, variadic, declaration }, h => by
    have hresult := returnedEncoding_eq_of_isSelfContained visiting result fun _ hpart =>
      h.mono (handles_subset_of_result hpart)
    have harguments := argumentEncodings_eq_of_isSelfContained visiting arguments fun _ hpart =>
      h.mono (handles_subset_of_argument hpart)
    unfold signatureIn
    cases kind with
    | sugar sugar =>
      cases canonical with
      | some function =>
        exact signatureIn_eq_of_isSelfContained visiting callable function (h.mono (handles_subset_of_canonical rfl))
      | none =>
        dsimp only
        rw [hresult, harguments]
    | _ =>
      dsimp only
      rw [hresult, harguments]

theorem returnedEncoding_eq_of_isSelfContained (visiting : List RecordKey) : ∀ result : Option TypeHandle,
    (∀ returned, result = some returned → returned.IsSelfContained) →
      returnedEncoding first visiting result = returnedEncoding second visiting result
  | none, _ => rfl
  | some returned, h => by
    unfold returnedEncoding
    rw [resolveIn_eq_of_isSelfContained visiting .outer none returned (h returned rfl)]

theorem argumentEncodings_eq_of_isSelfContained (visiting : List RecordKey) : ∀ arguments : List TypeHandle,
    (∀ argument ∈ arguments, argument.IsSelfContained) →
      argumentEncodings first visiting arguments = argumentEncodings second visiting arguments
  | [], _ => rfl
  | argument :: rest, h => by
    obtain ⟨hfirst, hrest⟩ := List.forall_mem_cons.1 h
    unfold argumentEncodings
    rw [resolveIn_eq_of_isSelfContained visiting .outer none argument hfirst,
      argumentEncodings_eq_of_isSelfContained visiting rest hrest]

theorem memberEncodings_eq_of_isSelfContained (visiting : List RecordKey) : ∀ fields : List FieldHandle,
    (∀ field ∈ fields, field.type.IsSelfContained) →
      memberEncodings first visiting fields = memberEncodings second visiting fields
  | [], _ => rfl
  | { name, type } :: rest, h => by
    obtain ⟨hfirst, hrest⟩ := List.forall_mem_cons.1 h
    unfold memberEncodings
    rw [resolveIn_eq_of_isSelfContained visiting .field none type hfirst,
      memberEncodings_eq_of_isSelfContained visiting rest hrest]

end

variable {first second}

theorem resolve_eq_of_isSelfContained {handle : TypeHandle} (h : handle.IsSelfContained) (hint : Option String) :
    handle.resolve first hint = handle.resolve second hint := by
  rw [resolve_eq, resolve_eq, resolveIn_eq_of_isSelfContained first second [] .outer hint handle h]

theorem resolveMember_eq_of_isSelfContained {handle : TypeHandle} (h : handle.IsSelfContained)
    (hint : Option String) : handle.resolveMember first hint = handle.resolveMember second hint := by
  rw [resolveMember_eq, resolveMember_eq, resolveIn_eq_of_isSelfContained first second [] .field hint handle h]

end TypeHandle

/-- The signature of a call means the same whatever is known, if what it returns and takes is self-contained. -/
theorem Callable.signature_eq_of_isSelfContained {first second : Lookup} {call : Callable}
    (hresult : ∀ result, call.result = some result → result.IsSelfContained)
    (harguments : ∀ argument ∈ call.arguments, argument.IsSelfContained) :
    call.signature first = call.signature second := by
  rw [signature_eq, signature_eq, TypeHandle.returnedEncoding_eq_of_isSelfContained first second [] _ hresult,
    TypeHandle.argumentEncodings_eq_of_isSelfContained first second [] _ harguments]

end HeaderCatalog
