import HeaderCatalog.Handle.Json
import HeaderCatalog.Proofs.Json.Shape
import HeaderCatalog.Proofs.Resolution.Handles

set_option autoImplicit false

/-!
# Handles that are written and read again

A handle that was read is written with the tags it was read with, and what is written of it is read as the same handle
(`readsBack`), although it may look different: every field is there, and in the form of an object.  The handles inside
it were read with fewer levels, so this is an induction on the levels.
-/

namespace HeaderCatalog

open Json

namespace TypeHandle

/-! ## Writing -/

theorem optionToJson_eq (handle : Option TypeHandle) : optionToJson handle = ofOption toJson handle := by
  cases handle <;> rfl

theorem listToJson_eq (handles : List TypeHandle) : listToJson handles = handles.map toJson := by
  induction handles with
  | nil => rfl
  | cons handle rest ih => rw [listToJson, ih, List.map_cons]

/-- A field of a record with both of its fields. -/
def fieldToJson (field : FieldHandle) : Json := .object [("name", .text field.name), ("type", field.type.toJson)]

theorem fieldsToJson_eq (fields : List FieldHandle) : fieldsToJson fields = fields.map fieldToJson := by
  induction fields with
  | nil => rfl
  | cons field rest ih =>
    cases field
    rw [fieldsToJson, ih, List.map_cons, fieldToJson]

/-- The fields that are written of a handle. -/
def written (handle : TypeHandle) : List (String × Json) :=
  [("kind", .text handle.kind.tag), ("spelling", .text handle.spelling),
    ("pointee", ofOption toJson handle.pointee), ("canonical", ofOption toJson handle.canonical),
    ("result", ofOption toJson handle.result), ("arguments", .list (handle.arguments.map toJson)),
    ("fields", .list (handle.fields.map fieldToJson)), ("element", ofOption toJson handle.element),
    ("size", ofOption (fun n : UInt64 => .int n.toNat) handle.size), ("variadic", .bool handle.variadic),
    ("declaration", ofOption Location.toJson handle.declaration)]

theorem toJson_eq (handle : TypeHandle) : handle.toJson = .object handle.written := by
  cases handle
  simp only [toJson, written, optionToJson_eq, listToJson_eq, fieldsToJson_eq]

theorem toJson_ne_null (handle : TypeHandle) : handle.toJson ≠ .null := by
  rw [toJson_eq]
  simp

/-! ## Reading -/

theorem handlesOfJson?_eq : handlesOfJson? = list? ofJsonWithin? := by
  funext levels value
  cases levels with
  | zero => rfl
  | succ levels => cases value <;> rfl

theorem fieldsOfJson?_eq : fieldsOfJson? = list? fieldOfJson? := by
  funext levels value
  cases levels with
  | zero => rfl
  | succ levels => cases value <;> rfl

/-- The values in a value that are read as handles. -/
def partsIn (value : Json) : List Json :=
  let field (name : String) := value.field? fieldNames name
  given (field "pointee") ++ given (field "canonical") ++ given (field "result") ++ items (field "arguments") ++
    (items (field "fields")).flatMap (fun part => (part.field? ["name", "type"] "type").toList) ++
    given (field "element")

/-- The tag of a value that is read as a handle. -/
def tagIn? (value : Json) : Option String := (value.field? fieldNames "kind").bind text?

theorem type_of_fieldOfJson? {levels : Nat} {value : Json} {field : FieldHandle}
    (h : fieldOfJson? levels value = some field) :
    List.Forall₂ (ReadBelow ofJsonWithin? levels) (value.field? ["name", "type"] "type").toList [field.type] := by
  cases levels with
  | zero => cases h
  | succ levels =>
    unfold fieldOfJson? at h
    obtain ⟨fields, hfields, h⟩ := Option.bind_eq_some_iff.1 h
    split at h
    case h_2 => cases h
    case h_1 name type =>
      simp only [Option.bind_eq_bind, Option.bind_eq_some_iff, Option.pure_def, Option.some.injEq] at h
      obtain ⟨_, -, handle, htype, rfl⟩ := h
      rw [required_eq_bind] at htype
      obtain ⟨part, rfl, hpart⟩ := Option.bind_eq_some_iff.1 htype
      have hfield : value.field? ["name", "type"] "type" = some part := by
        rw [field?, hfields]
        rfl
      rw [hfield]
      exact .cons ⟨levels, Nat.lt_succ_self levels, hpart⟩ .nil

/-- What a handle was read from: a tag, and parts that were read as the handles it is made of. -/
theorem parts_of_ofJsonWithin? {levels : Nat} {value : Json} {handle : TypeHandle}
    (h : ofJsonWithin? levels value = some handle) :
    (∃ tag, tagIn? value = some tag ∧ handle.kind = .ofTag tag) ∧
      List.Forall₂ (ReadBelow ofJsonWithin? levels) (partsIn value) handle.components := by
  cases levels with
  | zero => cases h
  | succ levels =>
    unfold ofJsonWithin? at h
    obtain ⟨_, hfields, h⟩ := Option.bind_eq_some_iff.1 h
    split at h
    case h_2 => cases h
    case h_1 kind spelling pointee canonical result arguments fields element size variadic declaration =>
      have hfield (name : String) : value.field? fieldNames name =
          ([kind, spelling, pointee, canonical, result, arguments, fields, element, size, variadic,
            declaration][fieldNames.idxOf name]?).join := by
        rw [field?, hfields]
        rfl
      simp only [Option.bind_eq_bind, Option.bind_eq_some_iff, Option.pure_def, Option.some.injEq] at h
      obtain ⟨tag, htag, _, -, _, hpointee, _, hcanonical, _, hresult, _, harguments, _, hrecord, _, helement, _, -,
        _, -, _, -, rfl⟩ := h
      have hlist := (forall₂_items (handlesOfJson?_eq ▸ harguments)).imp fun _ _ hpart =>
        hpart.mono (Nat.le_succ levels)
      have htypes := List.rel_flatMap (forall₂_items (fieldsOfJson?_eq ▸ hrecord)) fun _ _ ⟨fewer, hfewer, hread⟩ =>
        (type_of_fieldOfJson? hread).imp fun _ _ hpart => hpart.mono (Nat.le_succ_of_le (Nat.le_of_lt hfewer))
      refine ⟨⟨tag, ?_, rfl⟩, ?_⟩
      · rw [tagIn?, hfield, ← required_eq_bind]
        exact htag
      · rw [components, List.map_eq_flatMap, partsIn]
        simp only [hfield]
        exact List.rel_append (List.rel_append (List.rel_append (List.rel_append (List.rel_append
          (forall₂_given hpointee) (forall₂_given hcanonical)) (forall₂_given hresult)) hlist) htypes)
          (forall₂_given helement)

/-! ## Tags -/

/-- The tags of a handle and of the handles inside it. -/
def tags (handle : TypeHandle) : List String := handle.handles.map (·.kind.tag)

theorem tags_eq (handle : TypeHandle) : handle.tags = handle.kind.tag :: handle.components.flatMap tags := by
  unfold tags
  rw [handles_eq, List.map_cons, List.map_flatMap]

/-- The tags in a value that is read as a handle, for handles nested no deeper than the levels. -/
def tagsWithin : Nat → Json → List String
  | 0, _ => []
  | levels + 1, value => (tagIn? value).toList ++ (partsIn value).flatMap (tagsWithin levels)

/-- A handle has the tags that it was read with. -/
theorem tagsWithin_eq {levels more : Nat} {value : Json} {handle : TypeHandle}
    (h : ofJsonWithin? levels value = some handle) (hle : levels ≤ more) : tagsWithin more value = handle.tags := by
  induction levels using Nat.strongRecOn generalizing more value handle with
  | _ levels ih =>
    obtain ⟨⟨tag, htag, hkind⟩, hparts⟩ := parts_of_ofJsonWithin? h
    cases more with
    | zero =>
      cases Nat.le_zero.1 hle
      cases h
    | succ more =>
      have hinner : (partsIn value).flatMap (tagsWithin more) = handle.components.flatMap tags :=
        flatMap_eq_of_forall₂ hparts fun part inner ⟨fewer, hfewer, hread⟩ =>
          ih fewer hfewer hread (Nat.le_of_lt_succ (Nat.lt_of_lt_of_le hfewer hle))
      rw [tagsWithin, tags_eq, htag, hkind, TypeKind.tag_ofTag, hinner]
      rfl

/-- The tags in a value that is read as a handle. -/
def tagsIn (value : Json) : List String := tagsWithin value.depth value

/-! ## Reading what was written -/

theorem readsBack_field {field : FieldHandle} (h : ReadsBack ofJsonWithin? toJson field.type) :
    ReadsBack fieldOfJson? fieldToJson field := by
  intro levels hdepth
  obtain ⟨levels, rfl, hentry⟩ := exists_levels hdepth
  have htype := h levels (hentry ("type", field.type.toJson) (List.mem_cons_of_mem _ List.mem_cons_self))
  have hfields : (fieldToJson field).fields? ["name", "type"] =
      some [some (.text field.name), some field.type.toJson] :=
    fields?_object (show ["name", "type"].Nodup by decide)
  rw [fieldOfJson?, hfields]
  simp only [Option.bind_eq_bind, Option.bind_some, required, text?, htype]
  cases field
  rfl

/-- A handle can be read again if the handles it is made of can, and its kind is read from its tag. -/
theorem readsBack_of_components {handle : TypeHandle} (hkind : TypeKind.ofTag handle.kind.tag = handle.kind)
    (hparts : ∀ part ∈ handle.components, ReadsBack ofJsonWithin? toJson part) :
    ReadsBack ofJsonWithin? toJson handle := by
  intro levels hdepth
  rw [toJson_eq] at hdepth ⊢
  obtain ⟨levels, rfl, hentry⟩ := exists_levels hdepth
  have hwritten : (object handle.written).fields? fieldNames = some (handle.written.map fun entry => some entry.2) :=
    fields?_object (show fieldNames.Nodup by decide)
  obtain ⟨hpointee, hcanonical, hresult, harguments, hfields, helement⟩ := forall_mem_components.1 hparts
  simp only [written, List.forall_mem_cons] at hentry
  obtain ⟨-, -, dpointee, dcanonical, dresult, darguments, dfields, delement, -, -, ddeclaration, -⟩ := hentry
  have hoption {inner : Option TypeHandle} (hinner : ∀ part ∈ inner, ReadsBack ofJsonWithin? toJson part)
      (dinner : (ofOption toJson inner).depth ≤ levels) :
      optional (ofJsonWithin? levels) (some (ofOption toJson inner)) = some inner :=
    optional_of_readsBack (fun part hpart => ⟨toJson_ne_null part, hinner part hpart⟩) dinner
  have hlist : handlesOfJson? levels (.list (handle.arguments.map toJson)) = some handle.arguments := by
    rw [handlesOfJson?_eq]
    exact readsBack_list harguments levels darguments
  have hrecord : fieldsOfJson? levels (.list (handle.fields.map fieldToJson)) = some handle.fields := by
    rw [fieldsOfJson?_eq]
    exact readsBack_list (fun field hfield => readsBack_field (hfields field hfield)) levels dfields
  have hsize : optional uint64? (some (ofOption (fun n : UInt64 => .int n.toNat) handle.size)) = some handle.size :=
    optional_ofOption fun n _ => ⟨by simp, uint64?_toNat n⟩
  have hdeclaration : optional (Location.ofJson? levels) (some (ofOption Location.toJson handle.declaration)) =
      some handle.declaration :=
    optional_of_readsBack (fun location _ => ⟨location.toJson_ne_null, location.readsBack⟩) ddeclaration
  rw [ofJsonWithin?, hwritten]
  simp only [written, List.map_cons, List.map_nil, Option.bind_eq_bind, Option.bind_some, required, defaulting, text?,
    bool?, hoption hpointee dpointee, hoption hcanonical dcanonical, hoption hresult dresult, hlist, hrecord,
    hoption helement delement, hsize, hdeclaration, hkind]
  cases handle
  rfl

/-- A handle that was read is read again from what is written of it. -/
theorem readsBack {levels : Nat} {value : Json} {handle : TypeHandle}
    (h : ofJsonWithin? levels value = some handle) : ReadsBack ofJsonWithin? toJson handle := by
  induction levels using Nat.strongRecOn generalizing value handle with
  | _ levels ih =>
    obtain ⟨⟨tag, -, hkind⟩, hparts⟩ := parts_of_ofJsonWithin? h
    refine readsBack_of_components (by rw [hkind, TypeKind.tag_ofTag]) fun part hpart => ?_
    obtain ⟨inner, fewer, hfewer, hread⟩ := exists_of_forall₂ hparts hpart
    exact ih fewer hfewer hread

end TypeHandle

end HeaderCatalog
