import HeaderCatalog.Proofs.Resolution.Guard

set_option autoImplicit false

/-!
# Records under sugar

Sugar says nothing of its own about a record, so a record should be written with the same members under any sugar.  It
is where it has a name (`outline_desugared`).  A record without a name is written under the name of the outermost sugar,
but with the fields of the handle that this sugar stands directly for.  That handle is the record itself if there is no
further sugar (`members_under_sugar`); otherwise it has no fields to write (`members_lost_under_sugar`).
-/

namespace HeaderCatalog

open Outline

namespace TypeHandle

variable (lookup : Lookup) (hint : Option String)

section Outlines

variable {handle target : TypeHandle} {kind : RecordKind}

theorem unnamedOutline_eq (key : RecordKey) (target : TypeHandle) :
    target.unnamedOutline lookup key = .ofRecord lookup key (fieldOutlines lookup target.fields) := by
  cases target
  rfl

/-- Sugar either names its target, or its target speaks for it. -/
theorem outline_of_target (hsugar : handle.kind.isSugar) (htarget : handle.canonical = some target) :
    handle.outline lookup hint =
      match target.unnamedRecord? with
      | some kind => target.unnamedOutline lookup ⟨kind, Naming.ofRecord handle.spelling⟩
      | none => target.outline lookup hint := by
  obtain ⟨kind, spelling, pointee, canonical, result, arguments, fields, element, size, variadic, declaration⟩ := handle
  obtain rfl : canonical = some target := htarget
  cases kind with
  | sugar sugar => rfl
  | _ => cases hsugar

/-- Sugar over anything but an unnamed record leaves no trace in the outline. -/
theorem outline_of_sugar (hsugar : handle.kind.isSugar) (htarget : handle.canonical = some target)
    (hnamed : target.unnamedRecord? = none) : handle.outline lookup hint = target.outline lookup hint := by
  rw [outline_of_target lookup hint hsugar htarget, hnamed]

/-- Sugar over an unnamed record gives it a name, and takes its fields from the handle right under it. -/
theorem outline_of_names (hsugar : handle.kind.isSugar) (htarget : handle.canonical = some target)
    (hunnamed : target.unnamedRecord? = some kind) : handle.outline lookup hint =
      .ofRecord lookup ⟨kind, Naming.ofRecord handle.spelling⟩ (fieldOutlines lookup target.fields) := by
  rw [outline_of_target lookup hint hsugar htarget, hunnamed]
  exact unnamedOutline_eq lookup _ target

theorem outline_of_record (hkind : handle.kind = .record kind) : handle.outline lookup hint =
    .ofRecord lookup (recordKeyOf kind handle.spelling) (fieldOutlines lookup handle.fields) := by
  cases handle
  obtain rfl := hkind
  rfl

end Outlines

/-- However much sugar there is over anything but an unnamed record. -/
theorem outline_desugared (handle : TypeHandle) (hnamed : handle.unnamedRecord? = none) :
    handle.outline lookup hint = handle.desugared.outline lookup hint := by
  fun_induction desugared handle with
  | case1 sugar spelling pointee target result arguments fields element size variadic declaration ih =>
    have htarget : target.unnamedRecord? = none := hnamed
    exact (outline_of_sugar lookup hint rfl rfl htarget).trans (ih htarget)
  | case2 handle => rfl

variable {lookup hint}

/-- Fields without records inside them have outlines without records. -/
theorem allRecords_fieldOutlines {fields : List FieldHandle}
    (halone : ∀ field ∈ fields, ∀ part ∈ field.type.inside, part.recordKey? = none) :
    allRecords (fieldOutlines lookup fields) = [] := by
  refine List.eq_nil_iff_forall_not_mem.2 fun pair hpair => ?_
  obtain ⟨field, hfield, part, hpart, hkey, -⟩ := exists_field_carries hpair
  rw [halone field hfield part hpart] at hkey
  cases hkey

/-- A record with fields, none of which holds a record, is written with them whatever its name is. -/
theorem encoding_ofRecord {key : RecordKey} {fields : List FieldHandle} (hfields : fields ≠ [])
    (halone : ∀ field ∈ fields, ∀ part ∈ field.type.inside, part.recordKey? = none) :
    ((ofRecord lookup key (fieldOutlines lookup fields)).placedIn (some []) .outer).encoding =
      .record key.kind key.name (some (encodings (allPlacedIn none .field (fieldOutlines lookup fields)))) := by
  have hplaced : allPlacedIn (some [key]) .field (fieldOutlines lookup fields) =
      allPlacedIn none .field (fieldOutlines lookup fields) := by
    rw [allPlacedIn_some, allCut_eq_self] <;> simp [allRecords_fieldOutlines halone, Apart]
  obtain ⟨first, rest, rfl⟩ := List.exists_cons_of_ne_nil hfields
  rw [fieldOutlines_eq_map, List.map_cons] at hplaced ⊢
  rw [ofRecord, placedIn, if_pos (by rfl), encoding, Watch.enter_some, hplaced]

/-- The sugar of a handle is gone after it is looked through once. -/
theorem desugared_desugared (handle : TypeHandle) : handle.desugared.desugared = handle.desugared := by
  fun_induction desugared handle with
  | case1 sugar spelling pointee target result arguments fields element size variadic declaration ih => exact ih
  | case2 handle hend => rw [desugared]; exact hend

theorem unnamedRecord?_desugared (handle : TypeHandle) : handle.desugared.unnamedRecord? = handle.unnamedRecord? := by
  rw [unnamedRecord?, desugared_desugared, unnamedRecord?]

/-- The kind of an unnamed record is the kind it is reported with. -/
theorem unnamedRecord?_of_record {handle : TypeHandle} {kind unnamed : RecordKind}
    (hkind : handle.desugared.kind = .record kind) (hunnamed : handle.unnamedRecord? = some unnamed) :
    unnamed = kind := by
  unfold unnamedRecord? at hunnamed
  rw [hkind] at hunnamed
  simpa [eq_comm] using And.right (by simpa using hunnamed)

variable (lookup hint)

/-- The members of a record that is resolved by itself. -/
theorem encoding_resolve_record {record : TypeHandle} {kind : RecordKind} (hkind : record.kind = .record kind)
    (hfields : record.fields ≠ [])
    (halone : ∀ field ∈ record.fields, ∀ part ∈ field.type.inside, part.recordKey? = none) :
    (record.resolve lookup hint).encoding = .record kind (recordKeyOf kind record.spelling).name
      (some (encodings (allPlacedIn none .field (fieldOutlines lookup record.fields)))) := by
  rw [encoding_resolve, outline_of_record lookup hint hkind, encoding_ofRecord hfields halone]
  rfl

/-- **Sugar keeps the members of a record** that has a name, and of one without if there is no further sugar between. -/
theorem members_under_sugar {head record : TypeHandle} {kind : RecordKind} (hsugar : head.kind.isSugar)
    (hrecord : head.desugared = record) (hkind : record.kind = .record kind) (hfields : record.fields ≠ [])
    (halone : ∀ field ∈ record.fields, ∀ part ∈ field.type.inside, part.recordKey? = none)
    (hdirect : record.unnamedRecord? = none ∨ head.canonical = some record) :
    ∃ name members, (head.resolve lookup hint).encoding = .record kind name (some members) ∧
      (record.resolve lookup hint).encoding =
        .record kind (recordKeyOf kind record.spelling).name (some members) := by
  have hown := encoding_resolve_record lookup hint hkind hfields halone
  cases hunnamed : record.unnamedRecord? with
  | none =>
    have hhead : head.unnamedRecord? = none := by rw [← unnamedRecord?_desugared, hrecord, hunnamed]
    have hsame : (head.resolve lookup hint).encoding = (record.resolve lookup hint).encoding := by
      rw [encoding_resolve, encoding_resolve, outline_desugared lookup hint head hhead, hrecord]
    exact ⟨_, _, hsame.trans hown, hown⟩
  | some unnamed =>
    have htarget : head.canonical = some record := by simpa [hunnamed] using hdirect
    have hdesugared : record.desugared.kind = .record kind := by rw [← hrecord, desugared_desugared, hrecord, hkind]
    obtain rfl := unnamedRecord?_of_record hdesugared hunnamed
    refine ⟨Naming.ofRecord head.spelling, _, ?_, hown⟩
    rw [encoding_resolve, outline_of_names lookup hint hsugar htarget hunnamed, encoding_ofRecord hfields halone]

/-- Three layers of sugar over a struct with a name. -/
theorem members_under_sugar_point :
    let number : TypeHandle := { kind := .scalar .double }
    let point : TypeHandle :=
      { kind := .record .struct, spelling := "struct Point", fields := [⟨"x", number⟩, ⟨"y", number⟩] }
    let elaborated : TypeHandle :=
      { kind := .sugar .elaborated, spelling := "struct Point", canonical := some point }
    let attributed : TypeHandle :=
      { kind := .sugar .attributed, spelling := "struct Point", canonical := some elaborated }
    let head : TypeHandle := { kind := .sugar .synonym, spelling := "Position", canonical := some attributed }
    ∃ name members, (head.resolve .empty none).encoding = .record .struct name (some members) ∧
      (point.resolve .empty none).encoding =
        .record .struct (recordKeyOf .struct "struct Point").name (some members) := by
  intro number point elaborated attributed head
  have halone : ∀ field ∈ point.fields, ∀ part ∈ field.type.inside, part.recordKey? = none := by decide +kernel
  have hnamed : point.unnamedRecord? = none := by decide +kernel
  have hsugar : head.kind.isSugar := rfl
  exact members_under_sugar .empty none hsugar rfl rfl (List.cons_ne_nil _ _) halone (Or.inl hnamed)

/-- Where the handle right under the sugar has no fields, an unnamed record gets what is known of its new name. -/
theorem members_lost_under_sugar {head target : TypeHandle} {kind : RecordKind} (hsugar : head.kind.isSugar)
    (htarget : head.canonical = some target) (hunnamed : target.unnamedRecord? = some kind)
    (hbare : target.fields = []) :
    (head.resolve lookup hint).encoding =
      .record kind (Naming.ofRecord head.spelling) (lookup.members? kind (Naming.ofRecord head.spelling)) := by
  rw [encoding_resolve, outline_of_names lookup hint hsugar htarget hunnamed, hbare]
  rfl

/-- Two layers of sugar over an unnamed struct: the outer one finds no fields, so the members are lost. -/
theorem members_lost_vector :
    let number : TypeHandle := { kind := .scalar .float }
    let note := "struct (unnamed at a.h:1:9)"
    let vector : TypeHandle :=
      { kind := .record .struct, spelling := note, fields := [⟨"x", number⟩, ⟨"y", number⟩] }
    let elaborated : TypeHandle := { kind := .sugar .elaborated, spelling := note, canonical := some vector }
    let head : TypeHandle := { kind := .sugar .synonym, spelling := "Vector", canonical := some elaborated }
    (head.resolve .empty none).encoding = .record .struct "Vector" none ∧
      (vector.resolve .empty none).encoding = .record .struct "?" (some [['f'], ['f']]) := by
  decide +kernel

end TypeHandle

end HeaderCatalog
