import HeaderCatalog.Proofs.Resolution.Guard

set_option autoImplicit false

/-!
# Outlines under another lookup

What is known of the members of records enters an outline where a handle carries no fields, and nowhere else.  So the
outline under another lookup is the outline at hand with the members at these places looked up again
(`outline_relearn`), as long as both know the same typedefs.

What is learned of one record makes no difference inside that record: there it is open, and written bare, whether or
not its members are known (`cut_relearn`).
-/

namespace HeaderCatalog

namespace Outline

mutual

/-- The outline with the members of records looked up again. -/
def relearn (lookup : Lookup) : Outline → Outline
  | plain encoding => plain encoding
  | pointer target => pointer (relearn lookup target)
  | array length element => array length (relearn lookup element)
  | record key fields => ofRecord lookup key (allRelearn lookup fields)
  | known key _ => ofRecord lookup key []
  | call callable returned taken => call callable (relearn lookup returned) (allRelearn lookup taken)

/-- Outlines with the members of records looked up again. -/
def allRelearn (lookup : Lookup) : List Outline → List Outline
  | [] => []
  | outline :: rest => relearn lookup outline :: allRelearn lookup rest

end

/-- A record is looked up again with its fields. -/
theorem relearn_ofRecord (lookup other : Lookup) (key : RecordKey) (fields : List Outline) :
    (ofRecord lookup key fields).relearn other = ofRecord other key (allRelearn other fields) := by
  cases fields <;> rfl

end Outline

namespace TypeHandle

variable {lookup other : Lookup}

mutual

/-- The outline of a handle under a lookup that knows the same typedefs. -/
theorem outline_relearn (hsynonym : other.synonym? = lookup.synonym?) (hint : Option String) : ∀ handle : TypeHandle,
    handle.outline other hint = (handle.outline lookup hint).relearn other
  | { kind, spelling, pointee, canonical, fields, element, size, .. } => by
    unfold outline
    cases kind with
    | pointer =>
      cases pointee with
      | none => exact outlineRest_relearn hsynonym hint canonical
      | some target =>
        dsimp only
        split
        · rfl
        split
        · exact signatureOutline_relearn hsynonym .functionPointer target
        · exact congrArg Outline.pointer (outline_relearn hsynonym none target)
    | blockPointer =>
      cases pointee with
      | none => rfl
      | some function => exact signatureOutline_relearn hsynonym .block function
    | record kind =>
      dsimp only
      rw [Outline.relearn_ofRecord, fieldOutlines_relearn hsynonym fields]
    | enum =>
      cases canonical with
      | none => rfl
      | some integer => exact outline_relearn hsynonym none integer
    | sugar sugar =>
      cases canonical with
      | some target =>
        dsimp only
        split
        · exact unnamedOutline_relearn hsynonym _ target
        · exact outline_relearn hsynonym hint target
      | none =>
        cases sugar with
        | synonym =>
          dsimp only
          rw [hsynonym]
          split
          · rfl
          · exact outlineRest_relearn hsynonym hint none
        | elaborated =>
          dsimp only
          split
          · rw [Outline.relearn_ofRecord, fieldOutlines_relearn hsynonym fields]
          · exact outlineRest_relearn hsynonym hint none
        | attributed => exact outlineRest_relearn hsynonym hint none
    | constantArray =>
      cases element with
      | none => exact outlineRest_relearn hsynonym hint canonical
      | some element => exact congrArg (Outline.array _) (outline_relearn hsynonym none element)
    | incompleteArray =>
      cases element with
      | none => exact outlineRest_relearn hsynonym hint canonical
      | some element => exact congrArg Outline.pointer (outline_relearn hsynonym none element)
    | vector | unexposed | dependent | invalid | other _ => exact outlineRest_relearn hsynonym hint canonical
    | scalar _ | objcId | objcClass | objcSelector | objcObjectPointer | objcInterface | objcObject | objcTypeParam
    | function _ => rfl
termination_by structural handle => handle

theorem outlineRest_relearn (hsynonym : other.synonym? = lookup.synonym?) (hint : Option String) :
    ∀ canonical : Option TypeHandle,
      outlineRest other hint canonical = (outlineRest lookup hint canonical).relearn other
  | none => by
    unfold outlineRest
    cases usableHint? hint <;> rfl
  | some canonical => by
    unfold outlineRest
    cases usableHint? hint with
    | some hint => rfl
    | none => exact outline_relearn hsynonym none canonical
termination_by structural canonical => canonical

theorem unnamedOutline_relearn (hsynonym : other.synonym? = lookup.synonym?) (key : RecordKey) :
    ∀ target : TypeHandle,
      target.unnamedOutline other key = (target.unnamedOutline lookup key).relearn other
  | { fields, .. } => by
    unfold unnamedOutline
    rw [Outline.relearn_ofRecord, fieldOutlines_relearn hsynonym fields]
termination_by structural target => target

theorem signatureOutline_relearn (hsynonym : other.synonym? = lookup.synonym?) (callable : CallableKind) :
    ∀ handle : TypeHandle,
      handle.signatureOutline other callable = (handle.signatureOutline lookup callable).relearn other
  | { kind, canonical, result, arguments, .. } => by
    have hcall : Outline.call callable (returnedOutline other result) (argumentOutlines other arguments) =
        (Outline.call callable (returnedOutline lookup result) (argumentOutlines lookup arguments)).relearn other := by
      rw [Outline.relearn, returnedOutline_relearn hsynonym result, argumentOutlines_relearn hsynonym arguments]
    unfold signatureOutline
    cases kind with
    | sugar sugar =>
      cases canonical with
      | some function => exact signatureOutline_relearn hsynonym callable function
      | none => exact hcall
    | _ => exact hcall
termination_by structural handle => handle

theorem returnedOutline_relearn (hsynonym : other.synonym? = lookup.synonym?) : ∀ result : Option TypeHandle,
    returnedOutline other result = (returnedOutline lookup result).relearn other
  | none => rfl
  | some result => outline_relearn hsynonym none result
termination_by structural result => result

theorem argumentOutlines_relearn (hsynonym : other.synonym? = lookup.synonym?) : ∀ arguments : List TypeHandle,
    argumentOutlines other arguments = Outline.allRelearn other (argumentOutlines lookup arguments)
  | [] => rfl
  | argument :: rest => by
    unfold argumentOutlines Outline.allRelearn
    rw [outline_relearn hsynonym none argument, argumentOutlines_relearn hsynonym rest]
termination_by structural arguments => arguments

theorem fieldOutlines_relearn (hsynonym : other.synonym? = lookup.synonym?) : ∀ fields : List FieldHandle,
    fieldOutlines other fields = Outline.allRelearn other (fieldOutlines lookup fields)
  | [] => rfl
  | { type, .. } :: rest => by
    unfold fieldOutlines Outline.allRelearn
    rw [outline_relearn hsynonym none type, fieldOutlines_relearn hsynonym rest]
termination_by structural fields => fields

end

end TypeHandle

/-! ## Learning of one record -/

/-- One lookup knows of one record more than another. -/
structure Lookup.Learns (lookup : Lookup) (key : RecordKey) (other : Lookup) : Prop where
  unknown : lookup.members? key.kind key.name = none
  members_eq : ∀ k ≠ key, other.members? k.kind k.name = lookup.members? k.kind k.name
  synonym_eq : other.synonym? = lookup.synonym?

namespace Outline

variable {lookup other : Lookup} {key : RecordKey}

/-- A record without fields is bare where it is open, whatever is known of it. -/
theorem cut_known (hlearns : lookup.Learns key other) {around larger : List RecordKey}
    (haround : ∀ k, k ∈ larger ↔ k = key ∨ k ∈ around) (k : RecordKey) :
    (ofRecord other k []).cut larger = (ofRecord lookup k []).cut around := by
  rw [ofRecord, ofRecord, cut, cut]
  by_cases hk : k = key
  · subst hk
    rw [if_pos ((haround k).2 (Or.inl rfl)), hlearns.unknown, ite_self]
  · rw [hlearns.members_eq k hk]
    have hiff : k ∈ larger ↔ k ∈ around := by rw [haround k, or_iff_right hk]
    simp only [hiff]

mutual

/-- What is learned of a record makes no difference inside it, if it does not stand there with fields. -/
theorem cut_relearn (hlearns : lookup.Learns key other) {around larger : List RecordKey}
    (haround : ∀ k, k ∈ larger ↔ k = key ∨ k ∈ around) : ∀ outline : Outline,
    (∀ pair ∈ outline.records, pair.1 = key → pair.2 = []) →
      (outline.relearn other).cut larger = (outline.relearn lookup).cut around
  | plain _, _ => rfl
  | pointer target, h => congrArg pointer (cut_relearn hlearns haround target h)
  | array length element, h => congrArg (array length) (cut_relearn hlearns haround element h)
  | record k fields, h => by
    cases fields with
    | nil => exact cut_known hlearns haround k
    | cons first rest =>
      have hk : k ≠ key := fun hk => List.cons_ne_nil first rest (h (k, first :: rest) List.mem_cons_self hk)
      have hinside : ∀ k', k' ∈ k :: larger ↔ k' = key ∨ k' ∈ k :: around := by
        intro k'
        rw [List.mem_cons, List.mem_cons, haround k']
        exact or_left_comm
      have hfields := allCut_relearn hlearns hinside (first :: rest)
        fun pair hpair => h pair (List.mem_cons_of_mem _ hpair)
      have hiff : k ∈ larger ↔ k ∈ around := by rw [haround k, or_iff_right hk]
      rw [relearn, relearn, allRelearn, allRelearn, ofRecord, ofRecord, cut, cut]
      rw [allRelearn, allRelearn] at hfields
      simp only [hiff, hfields]
  | known k _, _ => cut_known hlearns haround k
  | call callable returned taken, h => by
    rw [records] at h
    rw [relearn, relearn, cut, cut,
      cut_relearn hlearns haround returned fun pair hpair => h pair (List.mem_append_left _ hpair),
      allCut_relearn hlearns haround taken fun pair hpair => h pair (List.mem_append_right _ hpair)]

theorem allCut_relearn (hlearns : lookup.Learns key other) {around larger : List RecordKey}
    (haround : ∀ k, k ∈ larger ↔ k = key ∨ k ∈ around) : ∀ outlines : List Outline,
    (∀ pair ∈ allRecords outlines, pair.1 = key → pair.2 = []) →
      allCut larger (allRelearn other outlines) = allCut around (allRelearn lookup outlines)
  | [], _ => rfl
  | outline :: rest, h => by
    rw [allRecords] at h
    rw [allRelearn, allRelearn, allCut, allCut,
      cut_relearn hlearns haround outline fun pair hpair => h pair (List.mem_append_left _ hpair),
      allCut_relearn hlearns haround rest fun pair hpair => h pair (List.mem_append_right _ hpair)]

end

end Outline

end HeaderCatalog
