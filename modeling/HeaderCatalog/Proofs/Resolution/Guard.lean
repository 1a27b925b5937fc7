import HeaderCatalog.Proofs.Resolution.Parts

set_option autoImplicit false

/-!
# Records inside records

Resolution keeps account of the records that are open, so that a record inside itself is written bare.  It tells records
apart by their keys, and this module says what comes of that: the account makes bare exactly the records that stand
inside one with their key (`resolve_eq_cut`), so it goes unnoticed wherever nested records differ in theirs
(`resolve_eq_unwatched`).  Records without a name all have one key, and those do not.
-/

namespace HeaderCatalog

namespace Outline

/-! ## Cutting an outline where a record recurs -/

mutual

/-- The outline with those records bare whose key is that of a record around them; `around` are the keys of those around
the outline. -/
def cut (around : List RecordKey) : Outline → Outline
  | plain encoding => plain encoding
  | pointer target => pointer (cut around target)
  | array length element => array length (cut around element)
  | record key fields => if key ∈ around then known key none else record key (allCut (key :: around) fields)
  | known key members => known key (if key ∈ around then none else members)
  | call callable returned taken => call callable (cut around returned) (allCut around taken)

/-- Outlines inside the same records, cut. -/
def allCut (around : List RecordKey) : List Outline → List Outline
  | [] => []
  | outline :: rest => cut around outline :: allCut around rest

end

mutual

/-- Watching the open records comes to cutting the outline first. -/
theorem placedIn_some (visiting : List RecordKey) (scope : Scope) : ∀ outline : Outline,
    outline.placedIn (some visiting) scope = (outline.cut visiting).placedIn none scope
  | plain _ => rfl
  | pointer target => congrArg pointer (placedIn_some visiting scope.behindPointer target)
  | array length element => congrArg (array length) (placedIn_some visiting scope element)
  | record key fields => by
    have hfields := allPlacedIn_some (key :: visiting) .field fields
    by_cases hopen : key ∈ visiting <;> simp [placedIn, cut, hopen, hfields]
  | known key members => by
    by_cases hopen : key ∈ visiting <;> simp [placedIn, cut, hopen]
  | call callable returned taken => by
    rw [placedIn, cut, placedIn, placedIn_some visiting .outer returned, allPlacedIn_some visiting .outer taken]

theorem allPlacedIn_some (visiting : List RecordKey) (scope : Scope) : ∀ outlines : List Outline,
    allPlacedIn (some visiting) scope outlines = allPlacedIn none scope (allCut visiting outlines)
  | [] => rfl
  | outline :: rest => by
    rw [allPlacedIn, allCut, allPlacedIn, placedIn_some visiting scope outline, allPlacedIn_some visiting scope rest]

end

/-- None of the records has its own key among those of the records in its fields. -/
def Apart (records : List (RecordKey × List Outline)) : Prop :=
  ∀ pair ∈ records, ∀ inner ∈ allRecords pair.2, inner.1 ≠ pair.1

theorem Apart.of_subset {records others : List (RecordKey × List Outline)} (h : Apart records)
    (hsubset : others ⊆ records) : Apart others :=
  fun pair hpair => h pair (hsubset hpair)

mutual

/-- There is nothing to cut where no record recurs. -/
theorem cut_eq_self (around : List RecordKey) : ∀ outline : Outline,
    (∀ pair ∈ outline.records, pair.1 ∉ around) → Apart outline.records → outline.cut around = outline
  | plain _, _, _ => rfl
  | pointer target, haround, hapart => congrArg pointer (cut_eq_self around target haround hapart)
  | array length element, haround, hapart => congrArg (array length) (cut_eq_self around element haround hapart)
  | record key fields, haround, hapart => by
    have hkey : key ∉ around := haround (key, fields) List.mem_cons_self
    have hinside : ∀ pair ∈ allRecords fields, pair.1 ∉ key :: around := by
      intro pair hpair
      rw [List.mem_cons, not_or]
      exact ⟨hapart (key, fields) List.mem_cons_self pair hpair, haround pair (List.mem_cons_of_mem _ hpair)⟩
    rw [cut, if_neg hkey, allCut_eq_self (key :: around) fields hinside (hapart.of_subset (List.subset_cons_self _ _))]
  | known key members, haround, _ => by
    rw [cut, if_neg (haround (key, []) List.mem_cons_self)]
  | call callable returned taken, haround, hapart => by
    rw [records] at haround hapart
    rw [cut,
      cut_eq_self around returned (fun pair hpair => haround pair (List.mem_append_left _ hpair))
        (hapart.of_subset (List.subset_append_left _ _)),
      allCut_eq_self around taken (fun pair hpair => haround pair (List.mem_append_right _ hpair))
        (hapart.of_subset (List.subset_append_right _ _))]

theorem allCut_eq_self (around : List RecordKey) : ∀ outlines : List Outline,
    (∀ pair ∈ allRecords outlines, pair.1 ∉ around) → Apart (allRecords outlines) → allCut around outlines = outlines
  | [], _, _ => rfl
  | outline :: rest, haround, hapart => by
    rw [allRecords] at haround hapart
    rw [allCut,
      cut_eq_self around outline (fun pair hpair => haround pair (List.mem_append_left _ hpair))
        (hapart.of_subset (List.subset_append_left _ _)),
      allCut_eq_self around rest (fun pair hpair => haround pair (List.mem_append_right _ hpair))
        (hapart.of_subset (List.subset_append_right _ _))]

end

end Outline

namespace TypeHandle

/-! ## Handles whose records differ -/

/-- No record that counts stands inside one with its key. -/
def RecordsApart (counts : RecordKey → Bool) (handle : TypeHandle) : Prop :=
  ∀ whole ∈ handle.inside, ∀ key ∈ whole.recordKey?, counts key →
    ∀ field ∈ whole.recordFields, ∀ part ∈ field.type.inside, part.recordKey? ≠ some key

instance (counts : RecordKey → Bool) (handle : TypeHandle) : Decidable (handle.RecordsApart counts) :=
  inferInstanceAs (Decidable (∀ whole ∈ handle.inside, ∀ key ∈ whole.recordKey?, counts key →
    ∀ field ∈ whole.recordFields, ∀ part ∈ field.type.inside, part.recordKey? ≠ some key))

variable {lookup : Lookup} {hint : Option String} {handle : TypeHandle}

/-- Where nested handles have different keys, so have the records of the outline. -/
theorem RecordsApart.outline (h : handle.RecordsApart fun _ => true) :
    Outline.Apart (handle.outline lookup hint).records := by
  intro pair hpair inner hinner hsame
  obtain ⟨whole, hwhole, hkey, hfields⟩ := carries_outline lookup hint handle hpair
  rw [hfields] at hinner
  obtain ⟨field, hfield, part, hpart, hinnerKey, -⟩ := exists_field_carries hinner
  exact h whole hwhole pair.1 hkey rfl field hfield part hpart (hsame ▸ hinnerKey)

variable (lookup hint handle)

/-- Resolution writes a handle as if nothing were watched, once its outline is cut where a record recurs. -/
theorem resolve_eq_cut : (handle.resolve lookup hint).encoding =
    (((handle.outline lookup hint).cut []).placedIn none .outer).encoding := by
  rw [encoding_resolve, Outline.placedIn_some]

/-- **Watching the open records changes nothing where no record stands inside one with its key.** -/
theorem resolve_eq_unwatched (h : handle.RecordsApart fun _ => true) : (handle.resolve lookup hint).encoding =
    ((handle.outline lookup hint).placedIn none .outer).encoding := by
  have hcut : (handle.outline lookup hint).cut [] = handle.outline lookup hint :=
    Outline.cut_eq_self [] _ (fun _ _ => List.not_mem_nil) h.outline
  rw [resolve_eq_cut, hcut]

/-- Unnamed records inside each other are apart where typedefs name them, and so are records of two names. -/
theorem resolve_eq_unwatched_segment :
    let number : TypeHandle := { kind := .scalar .double, spelling := "double" }
    let unnamed (fields : List FieldHandle) : TypeHandle :=
      { kind := .record .struct, spelling := "struct (unnamed at a.h:1:9)", fields }
    let synonym (name : String) (target : TypeHandle) : TypeHandle :=
      { kind := .sugar .synonym, spelling := name, canonical := some target }
    let point := synonym "Point" (unnamed [⟨"x", number⟩, ⟨"y", number⟩])
    let segment := synonym "Segment" (unnamed [⟨"start", point⟩, ⟨"end", point⟩])
    (segment.RecordsApart fun _ => true) ∧ (segment.resolve .empty none).encoding =
      ((segment.outline .empty none).placedIn none .outer).encoding := by
  intro number unnamed synonym point segment
  have h : segment.RecordsApart fun _ => true := by decide +kernel
  exact ⟨h, resolve_eq_unwatched .empty none segment h⟩

/-- An unnamed record inside another loses its members: the two are different, but their keys are not. -/
theorem resolve_ne_unwatched_unnamed :
    let inner : TypeHandle :=
      { kind := .record .struct, spelling := "struct (unnamed at a.h:2:3)",
        fields := [⟨"count", { kind := .scalar .int }⟩] }
    let outer : TypeHandle :=
      { kind := .record .struct, spelling := "struct (unnamed at a.h:1:1)", fields := [⟨"inner", inner⟩] }
    (outer.RecordsApart fun key => key.name != "?") ∧
      (outer.resolve .empty none).encoding = .record .struct "?" (some [.record .struct "?" none]) ∧
      ((outer.outline .empty none).placedIn none .outer).encoding =
        .record .struct "?" (some [.record .struct "?" (some [['i']])]) := by
  decide +kernel

end TypeHandle

end HeaderCatalog
