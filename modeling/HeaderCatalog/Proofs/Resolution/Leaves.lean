import HeaderCatalog.Proofs.Encoding.Grammar
import HeaderCatalog.Proofs.Resolution.Outline

set_option autoImplicit false

/-!
# The encodings that an outline takes over

Most of an encoding is put together from its parts.  The rest is taken over as it is: the codes of types that are the
same everywhere, what is known of the members of a record, the type behind a typedef, and a hint.  These are the leaves
of an outline.  What holds of them all and is kept by putting together holds of the encoding.

Where nothing is known and there is no hint, every leaf is a single code (`leaf_outline_empty`).
-/

namespace HeaderCatalog

namespace Outline

mutual

/-- The encodings that are taken over as they are. -/
def leaves : Outline → List Encoding
  | plain encoding => [encoding]
  | pointer target => leaves target
  | array _ element => leaves element
  | record _ fields => allLeaves fields
  | known _ members => members.getD []
  | call _ returned taken => leaves returned ++ allLeaves taken

/-- The leaves of outlines. -/
def allLeaves : List Outline → List Encoding
  | [] => []
  | outline :: rest => leaves outline ++ allLeaves rest

end

mutual

/-- A place may leave out the members of a record; it adds nothing. -/
theorem leaves_placedIn_sublist (watch : Watch) (scope : Scope) : ∀ outline : Outline,
    List.Sublist (outline.placedIn watch scope).leaves outline.leaves
  | plain _ => List.Sublist.refl _
  | pointer target => leaves_placedIn_sublist watch scope.behindPointer target
  | array _ element => leaves_placedIn_sublist watch scope element
  | record key fields => by
    unfold placedIn
    split
    · exact leaves_allPlacedIn_sublist (watch.enter key) .field fields
    · exact List.nil_sublist _
  | known key members => by
    unfold placedIn
    split
    · exact List.Sublist.refl _
    · exact List.nil_sublist _
  | call _ returned taken =>
    (leaves_placedIn_sublist watch .outer returned).append (leaves_allPlacedIn_sublist watch .outer taken)

theorem leaves_allPlacedIn_sublist (watch : Watch) (scope : Scope) : ∀ outlines : List Outline,
    List.Sublist (allLeaves (allPlacedIn watch scope outlines)) (allLeaves outlines)
  | [] => List.Sublist.refl _
  | outline :: rest =>
    (leaves_placedIn_sublist watch scope outline).append (leaves_allPlacedIn_sublist watch scope rest)

end

end Outline

/-- The codes of types that have no parts. -/
def Encoding.codes : List Char := '@' :: Encoding.primitives

theorem Scalar.code_mem (scalar : Scalar) : scalar.code ∈ Encoding.codes := by
  cases scalar <;> decide

namespace TypeHandle

/-- Where the leaves of an outline come from. -/
inductive Leaf (lookup : Lookup) (hint : Option String) : Encoding → Prop
  | code {c : Char} (h : c ∈ Encoding.codes) : Leaf lookup hint [c]
  | member {kind : RecordKind} {name : String} {members : List Encoding} {encoding : Encoding}
      (hmembers : lookup.members? kind name = some members) (h : encoding ∈ members) : Leaf lookup hint encoding
  | synonym {name : String} {type : ResolvedType} (h : lookup.synonym? name = some type) :
      Leaf lookup hint type.encoding
  | hinted {usable : String} (h : usableHint? hint = some usable) : Leaf lookup hint (Encoding.erase usable.toList)

variable {lookup : Lookup} {hint : Option String} {leaf : Encoding}

/-- Parts are outlined without the hint for the whole. -/
theorem Leaf.of_part (h : Leaf lookup none leaf) : Leaf lookup hint leaf := by
  cases h with
  | code h => exact .code h
  | member hmembers h => exact .member hmembers h
  | synonym h => exact .synonym h
  | hinted h => cases h

/-- A leaf of a record is one of its fields, or known of its members. -/
theorem Leaf.of_record {key : RecordKey} {fields : List Outline}
    (hfields : leaf ∈ Outline.allLeaves fields → Leaf lookup none leaf)
    (h : leaf ∈ (Outline.ofRecord lookup key fields).leaves) : Leaf lookup hint leaf := by
  cases fields with
  | nil =>
    change leaf ∈ (lookup.members? key.kind key.name).getD [] at h
    cases hmembers : lookup.members? key.kind key.name with
    | none => rw [hmembers] at h; cases h
    | some members =>
      rw [hmembers] at h
      exact .member hmembers h
  | cons first rest => exact (hfields h).of_part

/-- The leaf of a plain outline is its encoding. -/
theorem Leaf.of_plain {encoding : Encoding} (hencoding : Leaf lookup hint encoding)
    (h : leaf ∈ (Outline.plain encoding).leaves) : Leaf lookup hint leaf := by
  rwa [List.mem_singleton.1 h]

mutual

/-- Every leaf of the outline of a handle is a code, or comes from what is known or from the hint. -/
theorem leaf_outline (lookup : Lookup) (hint : Option String) {leaf : Encoding} : ∀ handle : TypeHandle,
    leaf ∈ (handle.outline lookup hint).leaves → Leaf lookup hint leaf
  | { kind, spelling, pointee, canonical, fields, element, .. } => by
    intro h
    unfold outline at h
    cases kind with
    | scalar s => exact .of_plain (.code s.code_mem) h
    | pointer =>
      cases pointee with
      | none => exact leaf_outlineRest lookup hint canonical h
      | some target =>
        dsimp only at h
        split at h
        · exact .of_plain (.code (by decide)) h
        split at h
        · exact (leaf_signatureOutline lookup .functionPointer target h).of_part
        · exact (leaf_outline lookup none target h).of_part
    | blockPointer =>
      cases pointee with
      | none => exact .of_plain (.code (by decide)) h
      | some function => exact (leaf_signatureOutline lookup .block function h).of_part
    | record kind => exact .of_record (leaf_fieldOutlines lookup fields) h
    | enum =>
      cases canonical with
      | none => exact .of_plain (.code (by decide)) h
      | some integer => exact (leaf_outline lookup none integer h).of_part
    | sugar sugar =>
      cases canonical with
      | some target =>
        dsimp only at h
        split at h
        · exact leaf_unnamedOutline lookup hint _ target h
        · exact leaf_outline lookup hint target h
      | none =>
        cases sugar with
        | synonym =>
          dsimp only at h
          split at h
          · exact .of_plain (.synonym ‹_›) h
          · exact leaf_outlineRest lookup hint none h
        | elaborated =>
          dsimp only at h
          split at h
          · exact .of_record (leaf_fieldOutlines lookup fields) h
          · exact leaf_outlineRest lookup hint none h
        | attributed => exact leaf_outlineRest lookup hint none h
    | constantArray | incompleteArray =>
      cases element with
      | none => exact leaf_outlineRest lookup hint canonical h
      | some element => exact (leaf_outline lookup none element h).of_part
    | vector | unexposed | dependent | invalid | other _ => exact leaf_outlineRest lookup hint canonical h
    | objcId | objcClass | objcSelector | objcObjectPointer | objcInterface | objcObject | objcTypeParam
    | function _ => exact .of_plain (.code (by decide)) h
termination_by structural handle => handle

theorem leaf_outlineRest (lookup : Lookup) (hint : Option String) {leaf : Encoding} :
    ∀ canonical : Option TypeHandle, leaf ∈ (outlineRest lookup hint canonical).leaves → Leaf lookup hint leaf
  | none => by
    intro h
    unfold outlineRest at h
    split at h
    · exact .of_plain (.hinted ‹_›) h
    · exact .of_plain (.code (by decide)) h
  | some canonical => by
    intro h
    unfold outlineRest at h
    split at h
    · exact .of_plain (.hinted ‹_›) h
    · exact (leaf_outline lookup none canonical h).of_part
termination_by structural canonical => canonical

theorem leaf_unnamedOutline (lookup : Lookup) (hint : Option String) (key : RecordKey) {leaf : Encoding} :
    ∀ target : TypeHandle, leaf ∈ (target.unnamedOutline lookup key).leaves → Leaf lookup hint leaf
  | { fields, .. } => fun h => .of_record (leaf_fieldOutlines lookup fields) h
termination_by structural target => target

theorem leaf_signatureOutline (lookup : Lookup) (callable : CallableKind) {leaf : Encoding} :
    ∀ handle : TypeHandle, leaf ∈ (handle.signatureOutline lookup callable).leaves → Leaf lookup none leaf
  | { kind, canonical, result, arguments, .. } => by
    intro h
    have hcall : leaf ∈
        (Outline.call callable (returnedOutline lookup result) (argumentOutlines lookup arguments)).leaves →
        Leaf lookup none leaf := by
      intro h
      rcases List.mem_append.1 h with h | h
      · exact leaf_returnedOutline lookup result h
      · exact leaf_argumentOutlines lookup arguments h
    unfold signatureOutline at h
    cases kind with
    | sugar sugar =>
      cases canonical with
      | some function => exact leaf_signatureOutline lookup callable function h
      | none => exact hcall h
    | _ => exact hcall h
termination_by structural handle => handle

theorem leaf_returnedOutline (lookup : Lookup) {leaf : Encoding} : ∀ result : Option TypeHandle,
    leaf ∈ (returnedOutline lookup result).leaves → Leaf lookup none leaf
  | none => .of_plain (.code (by decide))
  | some result => leaf_outline lookup none result
termination_by structural result => result

theorem leaf_argumentOutlines (lookup : Lookup) {leaf : Encoding} : ∀ arguments : List TypeHandle,
    leaf ∈ Outline.allLeaves (argumentOutlines lookup arguments) → Leaf lookup none leaf
  | [] => by
    intro h
    cases h
  | argument :: rest => by
    intro h
    rcases List.mem_append.1 h with h | h
    · exact leaf_outline lookup none argument h
    · exact leaf_argumentOutlines lookup rest h
termination_by structural arguments => arguments

theorem leaf_fieldOutlines (lookup : Lookup) {leaf : Encoding} : ∀ fields : List FieldHandle,
    leaf ∈ Outline.allLeaves (fieldOutlines lookup fields) → Leaf lookup none leaf
  | [] => by
    intro h
    cases h
  | { type, .. } :: rest => by
    intro h
    rcases List.mem_append.1 h with h | h
    · exact leaf_outline lookup none type h
    · exact leaf_fieldOutlines lookup rest h
termination_by structural fields => fields

end

/-- Where nothing is known and there is no hint, every leaf is a code. -/
theorem leaf_outline_empty {handle : TypeHandle} (h : leaf ∈ (handle.outline .empty none).leaves) :
    ∃ c ∈ Encoding.codes, leaf = [c] := by
  cases leaf_outline .empty none handle h with
  | code hcode => exact ⟨_, hcode, rfl⟩
  | member hmembers _ => cases hmembers
  | synonym hsynonym => cases hsynonym
  | hinted husable => cases husable

end TypeHandle

end HeaderCatalog
