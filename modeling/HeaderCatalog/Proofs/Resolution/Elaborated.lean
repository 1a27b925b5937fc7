import HeaderCatalog.Proofs.Naming.LeadingWords
import HeaderCatalog.Proofs.Resolution.Place

set_option autoImplicit false

/-!
# Records behind qualifiers

An elaborated type without a canonical form is known by its spelling alone: qualifiers, a keyword and a name.  A record
is the same behind any qualifiers (`resolveIn_prefaced`), but that the type is one is seen only behind constant ones
(`elaboratedRecord?_qualify`).  So such a type is resolved like the record that its keyword and its name stand for if it
is not volatile, and like a type that nothing is known of if it is (`resolveIn_elaborated`).
-/

namespace HeaderCatalog

/-- A word that may stand in front of a type. -/
inductive Qualifier where
  | constant
  | volatile
  deriving DecidableEq, Repr

/-- A qualifier as it is spelled, with its space. -/
def Qualifier.word : Qualifier → String
  | constant => "const "
  | volatile => "volatile "

/-- A spelling with qualifiers in front. -/
def Qualifier.qualify : List Qualifier → String → String
  | [], spelling => spelling
  | qualifier :: rest, spelling => qualifier.word ++ qualify rest spelling

/-- A qualifier as what stands in front of a name. -/
def Qualifier.lead : Qualifier → Naming.Lead
  | constant => ⟨.const, "", rfl⟩
  | volatile => ⟨.volatile, "", rfl⟩

/-- The spelling of a record by its keyword and its name. -/
def RecordKind.spell (kind : RecordKind) (name : String) : String := kind.keyword ++ " " ++ name

namespace Naming

open Qualifier

theorem qualify_eq_prefaced (qualifiers : List Qualifier) (spelling : String) :
    qualify qualifiers spelling = prefaced (qualifiers.map lead) spelling := by
  induction qualifiers with
  | nil => rfl
  | cons qualifier rest ih =>
    have hword : qualifier.word = (lead qualifier).text := by cases qualifier <;> decide +kernel
    rw [qualify, hword, ih, List.map_cons, prefaced]

/-- A keyword is left of a spelling, whatever its name is. -/
theorem trimEnd_spell (kind : RecordKind) (name : String) : Text.trimEnd (kind.spell name).toList ≠ [] := by
  have hstart : ∃ c rest, (kind.spell name).toList = c :: rest ∧ Text.isBlank c = false := by
    cases kind
    · exact ⟨'s', _, by rw [RecordKind.spell, String.toList_append]; rfl, by decide⟩
    · exact ⟨'u', _, by rw [RecordKind.spell, String.toList_append]; rfl, by decide⟩
  obtain ⟨c, rest, hspell, hc⟩ := hstart
  rw [hspell, Text.trimEnd_cons]
  simp [hc]

theorem elaboratedRecord?_constant (spelling : String) :
    elaboratedRecord? (Qualifier.constant.word ++ spelling) = elaboratedRecord? spelling := by
  have hdrop : dropConst (Qualifier.constant.word ++ spelling).toList = dropConst spelling.toList := by
    rw [String.toList_append, dropConst]
    rfl
  rw [elaboratedRecord?, hdrop, ← elaboratedRecord?]

theorem elaboratedRecord?_volatile (spelling : String) :
    elaboratedRecord? (Qualifier.volatile.word ++ spelling) = none := by
  have hdrop : dropConst (Qualifier.volatile.word ++ spelling).toList = "volatile ".toList ++ spelling.toList := by
    rw [String.toList_append, dropConst]
    rfl
  rw [elaboratedRecord?, hdrop]
  rfl

theorem elaboratedRecord?_spell (kind : RecordKind) (name : String) :
    elaboratedRecord? (kind.spell name) = some kind := by
  have hdrop : dropConst (kind.spell name).toList = (kind.keyword ++ " ").toList ++ name.toList := by
    rw [RecordKind.spell, String.toList_append, dropConst]
    cases kind <;> rfl
  rw [elaboratedRecord?, hdrop]
  cases kind <;> rfl

/-- That a spelling names a record is seen behind constant qualifiers, and behind no others. -/
theorem elaboratedRecord?_qualify (qualifiers : List Qualifier) (kind : RecordKind) (name : String) :
    elaboratedRecord? (qualify qualifiers (kind.spell name)) =
      if ∀ qualifier ∈ qualifiers, qualifier = .constant then some kind else none := by
  induction qualifiers with
  | nil => exact elaboratedRecord?_spell kind name
  | cons qualifier rest ih =>
    rw [qualify]
    cases qualifier with
    | constant =>
      rw [elaboratedRecord?_constant, ih]
      simp
    | volatile =>
      rw [elaboratedRecord?_volatile]
      simp

end Naming

namespace TypeHandle

/-- A record with fields, as it is spelled. -/
def asRecord (shell : TypeHandle) (kind : RecordKind) (spelling : String) (fields : List FieldHandle) : TypeHandle :=
  { shell with kind := .record kind, spelling := spelling, fields := fields }

/-- An elaborated type with fields that is known by its spelling alone. -/
def asElaborated (shell : TypeHandle) (spelling : String) (fields : List FieldHandle) : TypeHandle :=
  { shell with kind := .sugar .elaborated, spelling := spelling, fields := fields, canonical := none }

variable (shell other : TypeHandle) (qualifiers : List Qualifier) (kind : RecordKind) (name : String)
  (fields : List FieldHandle) (lookup : Lookup) (visiting : List RecordKey) (scope : Scope) (hint : Option String)

open Qualifier

/-- What stands in front of the name of a record makes no difference to what it is resolved to: it is looked up, and
known to be open, by the name that is read behind. -/
theorem resolveIn_prefaced (leads : List Naming.Lead) (hname : Text.trimEnd name.toList ≠ []) :
    (shell.asRecord kind (Naming.prefaced leads name) fields).resolveIn lookup visiting scope hint =
      ((shell.asRecord kind name fields).resolveIn lookup visiting scope hint).withValue
        (Naming.prefaced leads name) := by
  have hkey : recordKeyOf kind (Naming.prefaced leads name) = recordKeyOf kind name := by
    rw [recordKeyOf, recordKeyOf, Naming.ofRecord_prefaced hname]
  unfold asRecord resolveIn
  simp only [hkey]
  rfl

/-- An elaborated type whose spelling is that of a record is resolved like the record. -/
theorem resolveIn_asElaborated {spelling : String} (h : Naming.elaboratedRecord? spelling = some kind) :
    (shell.asElaborated spelling fields).resolveIn lookup visiting scope hint =
      (other.asRecord kind spelling fields).resolveIn lookup visiting scope hint := by
  unfold asElaborated asRecord
  conv =>
    lhs
    unfold resolveIn
  simp only [h]
  rfl

/-- An elaborated record is the record of its name where all its qualifiers are constant.  Elsewhere the hint decides,
and what the front end says about the record is not looked at. -/
theorem resolveIn_elaborated :
    (shell.asElaborated (qualify qualifiers (kind.spell name)) fields).resolveIn lookup visiting scope hint =
      if ∀ qualifier ∈ qualifiers, qualifier = .constant then
        ((other.asRecord kind (kind.spell name) fields).resolveIn lookup visiting scope hint).withValue
          (qualify qualifiers (kind.spell name))
      else resolveRest lookup visiting scope hint (qualify qualifiers (kind.spell name)) none := by
  have hseen := Naming.elaboratedRecord?_qualify qualifiers kind name
  by_cases hconstant : ∀ qualifier ∈ qualifiers, qualifier = .constant
  · rw [if_pos hconstant] at hseen ⊢
    have hrecord := resolveIn_asElaborated shell other kind fields lookup visiting scope hint hseen
    have hqualified := resolveIn_prefaced other kind (kind.spell name) fields lookup visiting scope hint
      (qualifiers.map lead) (Naming.trimEnd_spell kind name)
    rw [hrecord, Naming.qualify_eq_prefaced, hqualified]
  · rw [if_neg hconstant] at hseen ⊢
    unfold asElaborated resolveIn
    simp only [hseen]

/-- The name of a record is the keyword of its kind. -/
theorem name_resolve_asRecord :
    ((other.asRecord kind (kind.spell name) fields).resolve lookup hint).name = kind.keyword := by
  rw [resolve_eq]
  rfl

/-- Nothing known is no record. -/
theorem unknown_not_alike (value : String) :
    ¬ (ResolvedType.unknown value).Alike ((other.asRecord kind (kind.spell name) fields).resolve lookup hint) := by
  intro halike
  have hname : Encoding.unknownName = kind.keyword :=
    halike.1.trans (name_resolve_asRecord other kind name fields lookup hint)
  cases kind <;> exact absurd hname (by decide)

/-- **Records behind qualifiers.**  An elaborated record without a canonical form is resolved to the same name and
encoding as the record itself exactly if all its qualifiers are constant, or if a hint happens to say the same. -/
theorem alike_elaborated_iff :
    ((shell.asElaborated (qualify qualifiers (kind.spell name)) fields).resolve lookup hint).Alike
        ((other.asRecord kind (kind.spell name) fields).resolve lookup hint) ↔
      (∀ qualifier ∈ qualifiers, qualifier = .constant) ∨
        ∃ text, usableHint? hint = some text ∧
          (ResolvedType.ofHint text "").Alike
            ((other.asRecord kind (kind.spell name) fields).resolve lookup hint) := by
  have htype := resolveIn_elaborated shell other qualifiers kind name fields lookup [] .outer hint
  rw [← resolve_eq, ← resolve_eq] at htype
  rw [htype]
  by_cases hconstant : ∀ qualifier ∈ qualifiers, qualifier = .constant
  · rw [if_pos hconstant]
    exact iff_of_true (.refl _) (.inl hconstant)
  · rw [if_neg hconstant, resolveRest, or_iff_right hconstant]
    cases usableHint? hint with
    | none => simp [unknown_not_alike]
    | some text => simp [ResolvedType.Alike, ResolvedType.ofHint]

/-- A volatile record is not resolved, though the front end says which fields it has. -/
theorem volatile_record_unknown :
    let fields : List FieldHandle :=
      [⟨"x", { kind := .scalar .double, spelling := "double" }⟩,
        ⟨"y", { kind := .scalar .double, spelling := "double" }⟩]
    let shell : TypeHandle := { kind := .sugar .elaborated }
    let record := shell.asRecord .struct "struct CGPoint" fields
    (record.resolve .empty none).encoding = "{CGPoint=dd}".toList ∧
      (shell.asElaborated "volatile struct CGPoint" fields).resolve .empty none =
        .unknown "volatile struct CGPoint" ∧
      ¬ ((shell.asElaborated "volatile struct CGPoint" fields).resolve .empty none).Alike
        (record.resolve .empty none) := by
  decide +kernel

end TypeHandle

end HeaderCatalog
