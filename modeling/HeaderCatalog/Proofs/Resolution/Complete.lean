import HeaderCatalog.Proofs.Resolution.Resolver
import Mathlib.Tactic.SplitIfs

set_option autoImplicit false

/-!
# Types that say something

A handle may lack any of its parts, a hint may be any text, and a typedef is taken as it was kept.  Whatever comes of
this, a resolved type has a name and an encoding (`isComplete_resolve`), as long as the types that are known of typedefs
have them.
-/

namespace HeaderCatalog

/-- A type with a name and an encoding. -/
structure ResolvedType.IsComplete (type : ResolvedType) : Prop where
  name_ne : type.name ≠ ""
  encoding_ne : type.encoding ≠ []

/-- Every type that is known of a typedef is complete. -/
def Lookup.IsComplete (lookup : Lookup) : Prop :=
  ∀ name type, lookup.synonym? name = some type → type.IsComplete

/-! ## Types read off encodings -/

namespace Encoding

theorem codeName_ne (c : Char) : codeName c ≠ "" := by
  unfold codeName
  split <;> decide

theorem typeName_ne (s : Encoding) : typeName s ≠ "" := by
  unfold typeName
  split
  · decide
  · decide
  · exact codeName_ne _
  · decide

theorem record_ne_nil (kind : RecordKind) (name : String) (members : Option (List Encoding)) :
    record kind name members ≠ [] := by
  cases members <;> exact List.cons_ne_nil _ _

theorem erase_ne_nil_of_isUsable {s : Encoding} (h : isUsable s = true) : erase s ≠ [] := by
  unfold isUsable at h
  rw [Bool.and_eq_true, decide_eq_true_eq] at h
  exact h.1

end Encoding

namespace ResolvedType

theorem IsComplete.of_cons {name value : String} {code : Char} {rest : Encoding} (h : name ≠ "") :
    (⟨name, value, code :: rest⟩ : ResolvedType).IsComplete :=
  ⟨h, List.cons_ne_nil code rest⟩

theorem isComplete_unknown (value : String) : (unknown value).IsComplete := .of_cons (by decide)

theorem isComplete_void : void.IsComplete := .of_cons (by decide)

theorem IsComplete.withValue {type : ResolvedType} (h : type.IsComplete) (value : String) :
    (type.withValue value).IsComplete :=
  ⟨h.name_ne, h.encoding_ne⟩

theorem isComplete_ofHint {hint : String} (h : Encoding.isUsable hint.toList = true) (value : String) :
    (ofHint hint value).IsComplete :=
  ⟨Encoding.typeName_ne _, Encoding.erase_ne_nil_of_isUsable h⟩

theorem isComplete_ofEncoding (encoding : String) : (ofEncoding encoding).IsComplete := by
  unfold ofEncoding
  split
  case isTrue h => exact ⟨Encoding.typeName_ne _, Encoding.erase_ne_nil_of_isUsable h⟩
  case isFalse => exact isComplete_unknown encoding

end ResolvedType

theorem Scalar.typeName_ne (scalar : Scalar) : scalar.typeName ≠ "" := by
  cases scalar <;> decide

theorem RecordKind.keyword_ne (kind : RecordKind) : kind.keyword ≠ "" := by
  cases kind <;> decide

theorem Lookup.recordEncoding_ne_nil (lookup : Lookup) (visiting : List RecordKey) (scope : Scope) (key : RecordKey)
    (members : Option (List RecordKey → List Encoding)) : lookup.recordEncoding visiting scope key members ≠ [] := by
  unfold recordEncoding
  split_ifs
  · cases members <;> exact Encoding.record_ne_nil _ _ _
  · exact Encoding.record_ne_nil _ _ _

/-! ## Types of handles -/

namespace TypeHandle

theorem recordIn_ne_nil (lookup : Lookup) (visiting : List RecordKey) (scope : Scope) (key : RecordKey)
    (handle : TypeHandle) : handle.recordIn lookup visiting scope key ≠ [] := by
  cases handle
  exact lookup.recordEncoding_ne_nil visiting scope key _

mutual

/-- Every kind of handle comes to a complete type, and so does every part that the type is taken from. -/
theorem isComplete_resolveIn {lookup : Lookup} (h : lookup.IsComplete) (visiting : List RecordKey) (scope : Scope)
    (hint : Option String) : ∀ handle : TypeHandle, (handle.resolveIn lookup visiting scope hint).IsComplete
  | { kind, spelling, pointee, canonical, element, .. } => by
    have hrest := isComplete_resolveRest h visiting scope hint spelling canonical
    unfold resolveIn
    cases kind with
    | scalar scalar => exact .of_cons scalar.typeName_ne
    | pointer =>
      cases pointee with
      | none => exact hrest
      | some target =>
        dsimp only
        split_ifs
        · exact .of_cons (by decide)
        · exact .of_cons (by decide)
        · exact .of_cons (by decide)
    | blockPointer => cases pointee <;> exact .of_cons (by decide)
    | record kind => exact ⟨kind.keyword_ne, lookup.recordEncoding_ne_nil _ _ _ _⟩
    | enum =>
      cases canonical with
      | none => exact .of_cons (by decide)
      | some integer => exact ⟨by simp, (isComplete_resolveIn h visiting scope none integer).encoding_ne⟩
    | sugar sugar =>
      cases canonical with
      | some target =>
        dsimp only
        cases target.unnamedRecord? with
        | some kind => exact ⟨kind.keyword_ne, target.recordIn_ne_nil _ _ _ _⟩
        | none => exact (isComplete_resolveIn h visiting scope hint target).withValue spelling
      | none =>
        cases sugar with
        | synonym =>
          dsimp only
          cases hknown : lookup.synonym? (Naming.ofRecord spelling) with
          | some type => exact (h _ type hknown).withValue spelling
          | none => exact hrest
        | elaborated =>
          dsimp only
          cases Naming.elaboratedRecord? spelling with
          | some kind => exact ⟨kind.keyword_ne, lookup.recordEncoding_ne_nil _ _ _ _⟩
          | none => exact hrest
        | attributed => exact hrest
    | constantArray | incompleteArray =>
      cases element with
      | none => exact hrest
      | some element => exact .of_cons (by decide)
    | vector | unexposed | dependent | invalid | other _ => exact hrest
    | objcId | objcClass | objcSelector | objcObjectPointer | objcInterface | objcObject | objcTypeParam
    | function _ => exact .of_cons (by decide)
termination_by structural handle => handle

theorem isComplete_resolveRest {lookup : Lookup} (h : lookup.IsComplete) (visiting : List RecordKey) (scope : Scope)
    (hint : Option String) (spelling : String) : ∀ canonical : Option TypeHandle,
      (resolveRest lookup visiting scope hint spelling canonical).IsComplete
  | none => by
    unfold resolveRest
    cases hhint : usableHint? hint with
    | some hint => exact ResolvedType.isComplete_ofHint (Option.filter_eq_some_iff.1 hhint).2 _
    | none => exact ResolvedType.isComplete_unknown _
  | some canonical => by
    unfold resolveRest
    cases hhint : usableHint? hint with
    | some hint => exact ResolvedType.isComplete_ofHint (Option.filter_eq_some_iff.1 hhint).2 _
    | none => exact (isComplete_resolveIn h visiting scope none canonical).withValue _
termination_by structural canonical => canonical

end

theorem isComplete_resolve {lookup : Lookup} (h : lookup.IsComplete) (hint : Option String) (handle : TypeHandle) :
    (handle.resolve lookup hint).IsComplete := by
  rw [resolve_eq]
  exact isComplete_resolveIn h [] .outer hint handle

theorem isComplete_resolveMember {lookup : Lookup} (h : lookup.IsComplete) (hint : Option String)
    (handle : TypeHandle) : (handle.resolveMember lookup hint).IsComplete := by
  rw [resolveMember_eq]
  exact isComplete_resolveIn h [] .field hint handle

end TypeHandle

end HeaderCatalog
