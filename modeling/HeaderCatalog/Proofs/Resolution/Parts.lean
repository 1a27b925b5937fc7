import HeaderCatalog.Proofs.Resolution.Outline

set_option autoImplicit false

/-!
# The handles inside a handle

A handle is built of other handles, and these of others again; `inside` lists them all.  Sugar over a record without a
name counts as one with that record, because it is the sugar that the record is named by.  A handle may stand for a
record: as struct or union, by a spelling that says so, or as sugar over a record without a name (`recordKey?`).

The records of an outline are all of this kind, each with the fields of the handle that it comes from
(`carries_outline`).
-/

namespace HeaderCatalog

/-- Whether a handle of a kind gives its name to its target: it is sugar, over a record without a name. -/
def TypeKind.names (kind : TypeKind) (target : TypeHandle) : Bool := kind.isSugar && target.unnamedRecord?.isSome

namespace TypeHandle

/-- The handles that a handle is built of, apart from a record that it names. -/
def parts : TypeHandle → List TypeHandle
  | { kind, pointee, canonical, result, arguments, fields, element, .. } =>
    pointee.toList ++ (canonical.filter (!kind.names ·)).toList ++ result.toList ++ arguments ++
      fields.map (·.type) ++ element.toList

theorem mem_parts {part whole : TypeHandle} : part ∈ whole.parts ↔
    whole.pointee = some part ∨ (whole.canonical = some part ∧ whole.kind.names part = false) ∨
      whole.result = some part ∨ part ∈ whole.arguments ∨ (∃ field ∈ whole.fields, field.type = part) ∨
      whole.element = some part := by
  cases whole
  simp [parts]

theorem field_mem_parts {field : FieldHandle} {whole : TypeHandle} (h : field ∈ whole.fields) :
    field.type ∈ whole.parts :=
  mem_parts.2 (Or.inr (Or.inr (Or.inr (Or.inr (Or.inl ⟨field, h, rfl⟩)))))

theorem target_mem_parts {target whole : TypeHandle} (hsugar : whole.kind.isSugar = false)
    (htarget : whole.canonical = some target) : target ∈ whole.parts :=
  mem_parts.2 (Or.inr (Or.inl ⟨htarget, by simp [TypeKind.names, hsugar]⟩))

mutual

/-- Every handle that stands somewhere within a handle. -/
def within : TypeHandle → List TypeHandle
  | { kind, pointee, canonical, result, arguments, fields, element, .. } =>
    withinOption pointee ++ withinTarget kind canonical ++ withinOption result ++ withinAll arguments ++
      withinFields fields ++ withinOption element

/-- A handle that may be missing, and those within it. -/
def withinOption : Option TypeHandle → List TypeHandle
  | none => []
  | some handle => handle :: within handle

/-- The handles within a target, and the target itself unless it is named by the handle it is the target of. -/
def withinTarget (kind : TypeKind) : Option TypeHandle → List TypeHandle
  | none => []
  | some target => if kind.names target then within target else target :: within target

/-- The handles of a list, and those within them. -/
def withinAll : List TypeHandle → List TypeHandle
  | [] => []
  | handle :: rest => handle :: within handle ++ withinAll rest

/-- The types of fields, and the handles within them. -/
def withinFields : List FieldHandle → List TypeHandle
  | [] => []
  | { type, .. } :: rest => type :: within type ++ withinFields rest

end

/-- A handle and every handle within it. -/
def inside (handle : TypeHandle) : List TypeHandle := handle :: handle.within

theorem mem_withinAll {part : TypeHandle} {handles : List TypeHandle} :
    part ∈ withinAll handles ↔ ∃ handle ∈ handles, part ∈ handle.inside := by
  induction handles with
  | nil => simp [withinAll]
  | cons handle rest ih => simp [withinAll, inside, ih, or_assoc]

theorem mem_withinFields {part : TypeHandle} {fields : List FieldHandle} :
    part ∈ withinFields fields ↔ ∃ field ∈ fields, part ∈ field.type.inside := by
  induction fields with
  | nil => simp [withinFields]
  | cons field rest ih =>
    obtain ⟨name, type⟩ := field
    simp [withinFields, inside, ih, or_assoc]

/-- What stands inside a part stands within the whole. -/
theorem inside_subset_of_part {part whole : TypeHandle} (hpart : part ∈ whole.parts) : part.inside ⊆ whole.within := by
  intro inner h
  have hoption : ∀ {handle : Option TypeHandle}, handle = some part → inner ∈ withinOption handle := by
    rintro _ rfl
    exact h
  obtain ⟨kind, spelling, pointee, canonical, result, arguments, fields, element, size, variadic, declaration⟩ := whole
  simp only [within, List.mem_append, mem_withinAll, mem_withinFields]
  rcases mem_parts.1 hpart with hpart | ⟨hpart, hnames⟩ | hpart | hpart | ⟨field, hfield, rfl⟩ | hpart
  · simp [hoption hpart]
  · obtain rfl : canonical = some part := hpart
    have htarget : inner ∈ withinTarget kind (some part) := by
      rwa [withinTarget, if_neg (by simp [show kind.names part = false from hnames])]
    simp [htarget]
  · simp [hoption hpart]
  · exact Or.inl (Or.inl (Or.inr ⟨part, hpart, h⟩))
  · exact Or.inl (Or.inr ⟨field, hfield, h⟩)
  · simp [hoption hpart]

/-- What stands within a target stands within the handle it is the target of. -/
theorem within_subset_of_target {target whole : TypeHandle} (htarget : whole.canonical = some target) :
    target.within ⊆ whole.within := by
  intro inner h
  obtain ⟨kind, spelling, pointee, canonical, result, arguments, fields, element, size, variadic, declaration⟩ := whole
  obtain rfl : canonical = some target := htarget
  have hinner : inner ∈ withinTarget kind (some target) := by
    unfold withinTarget
    split
    · exact h
    · exact List.mem_cons_of_mem _ h
  simp [within, hinner]

/-- The key a handle is written under, if it stands for a record: its own, or that of the record without a name that it
is sugar for. -/
def recordKey? : TypeHandle → Option RecordKey
  | { kind := .record kind, spelling, .. } => some (recordKeyOf kind spelling)
  | { kind := .sugar _, spelling, canonical := some target, .. } =>
    target.unnamedRecord?.map fun kind => ⟨kind, Naming.ofRecord spelling⟩
  | { kind := .sugar .elaborated, spelling, canonical := none, .. } =>
    (Naming.elaboratedRecord? spelling).map fun kind => recordKeyOf kind spelling
  | _ => none

/-- The fields a record is written with. -/
def recordFields : TypeHandle → List FieldHandle
  | { kind := .sugar _, canonical := some target, .. } => target.fields
  | { fields, .. } => fields

/-! ## Where the records of an outline come from -/

/-- A record of an outline comes from one of the handles: it has the key of that handle and its fields. -/
def Carries (lookup : Lookup) (handles : List TypeHandle) (pair : RecordKey × List Outline) : Prop :=
  ∃ part ∈ handles, part.recordKey? = some pair.1 ∧ pair.2 = fieldOutlines lookup part.recordFields

variable {lookup : Lookup} {pair : RecordKey × List Outline}

theorem Carries.mono {handles others : List TypeHandle} (h : Carries lookup handles pair) (hsubset : handles ⊆ others) :
    Carries lookup others pair := by
  obtain ⟨part, hpart, hkey, hfields⟩ := h
  exact ⟨part, hsubset hpart, hkey, hfields⟩

theorem Carries.of_part {part whole : TypeHandle} (h : Carries lookup part.inside pair) (hpart : part ∈ whole.parts) :
    Carries lookup whole.within pair :=
  h.mono (inside_subset_of_part hpart)

theorem Carries.inside {whole : TypeHandle} (h : Carries lookup whole.within pair) :
    Carries lookup whole.inside pair :=
  h.mono (List.subset_cons_self _ _)

/-- A handle that is written as a record carries that record, and those that its fields carry. -/
theorem Carries.of_record {whole : TypeHandle} {key : RecordKey} {fields : List FieldHandle}
    (hkey : whole.recordKey? = some key) (hfields : whole.recordFields = fields)
    (hwithin : pair ∈ Outline.allRecords (fieldOutlines lookup fields) → Carries lookup whole.within pair)
    (h : pair ∈ (Outline.ofRecord lookup key (fieldOutlines lookup fields)).records) :
    Carries lookup whole.inside pair := by
  rw [Outline.records_ofRecord, List.mem_cons] at h
  rcases h with rfl | h
  · exact ⟨whole, List.mem_cons_self, hkey, by rw [hfields]⟩
  · exact (hwithin h).inside

mutual

/-- Every record of an outline comes from a handle inside the one outlined. -/
theorem carries_outline (lookup : Lookup) (hint : Option String) {pair : RecordKey × List Outline} :
    ∀ handle : TypeHandle, pair ∈ (handle.outline lookup hint).records → Carries lookup handle.inside pair
  | { kind, spelling, pointee, canonical, fields, element, .. } => by
    intro h
    unfold outline at h
    cases kind with
    | pointer =>
      cases pointee with
      | none => exact (carries_outlineRest lookup hint canonical (fun _ h => target_mem_parts rfl h) h).inside
      | some target =>
        have hpart : ∀ whole : TypeHandle, whole.pointee = some target → target ∈ whole.parts :=
          fun _ hpointee => mem_parts.2 (Or.inl hpointee)
        dsimp only at h
        split at h
        · cases h
        split at h
        · exact ((carries_signatureOutline lookup .functionPointer target h).inside.of_part (hpart _ rfl)).inside
        · exact ((carries_outline lookup none target h).of_part (hpart _ rfl)).inside
    | blockPointer =>
      cases pointee with
      | none => cases h
      | some function =>
        exact ((carries_signatureOutline lookup .block function h).inside.of_part (by simp [mem_parts])).inside
    | record kind => exact .of_record rfl rfl (carries_fieldOutlines lookup fields (fun _ h => h)) h
    | enum =>
      cases canonical with
      | none => cases h
      | some integer => exact ((carries_outline lookup none integer h).of_part (target_mem_parts rfl rfl)).inside
    | sugar sugar =>
      cases canonical with
      | some target =>
        dsimp only at h
        cases hunnamed : target.unnamedRecord? with
        | some kind =>
          rw [hunnamed] at h
          exact carries_unnamedOutline lookup _ target (by simp [recordKey?, hunnamed]) rfl rfl h
        | none =>
          rw [hunnamed] at h
          exact ((carries_outline lookup hint target h).of_part (by simp [mem_parts, TypeKind.names, hunnamed])).inside
      | none =>
        cases sugar with
        | synonym =>
          dsimp only at h
          split at h
          · cases h
          · exact (carries_outlineRest lookup hint none (by simp) h).inside
        | elaborated =>
          dsimp only at h
          cases hkind : Naming.elaboratedRecord? spelling with
          | some kind =>
            rw [hkind] at h
            exact .of_record (by simp [recordKey?, hkind]) rfl (carries_fieldOutlines lookup fields (fun _ h => h)) h
          | none =>
            rw [hkind] at h
            exact (carries_outlineRest lookup hint none (by simp) h).inside
        | attributed => exact (carries_outlineRest lookup hint none (by simp) h).inside
    | constantArray | incompleteArray =>
      cases element with
      | none => exact (carries_outlineRest lookup hint canonical (fun _ h => target_mem_parts rfl h) h).inside
      | some element => exact ((carries_outline lookup none element h).of_part (by simp [mem_parts])).inside
    | vector | unexposed | dependent | invalid | other _ =>
      exact (carries_outlineRest lookup hint canonical (fun _ h => target_mem_parts rfl h) h).inside
    | scalar _ | objcId | objcClass | objcSelector | objcObjectPointer | objcInterface | objcObject | objcTypeParam
    | function _ => cases h
termination_by structural handle => handle

theorem carries_outlineRest (lookup : Lookup) (hint : Option String) {whole : TypeHandle}
    {pair : RecordKey × List Outline} : ∀ canonical : Option TypeHandle,
      (∀ target, canonical = some target → target ∈ whole.parts) →
      pair ∈ (outlineRest lookup hint canonical).records → Carries lookup whole.within pair
  | none => by
    intro _ h
    unfold outlineRest at h
    split at h <;> cases h
  | some canonical => by
    intro hpart h
    unfold outlineRest at h
    split at h
    · cases h
    · exact (carries_outline lookup none canonical h).of_part (hpart canonical rfl)
termination_by structural canonical => canonical

theorem carries_unnamedOutline (lookup : Lookup) (key : RecordKey) {whole : TypeHandle}
    {pair : RecordKey × List Outline} : ∀ target : TypeHandle, whole.recordKey? = some key →
      whole.recordFields = target.fields → whole.canonical = some target →
      pair ∈ (target.unnamedOutline lookup key).records → Carries lookup whole.inside pair
  | { fields, .. } => by
    intro hkey hfields htarget h
    refine .of_record hkey hfields (fun hwithin => ?_) h
    exact (carries_fieldOutlines lookup fields (fun _ h => h) hwithin).mono (within_subset_of_target htarget)
termination_by structural target => target

theorem carries_signatureOutline (lookup : Lookup) (callable : CallableKind) {pair : RecordKey × List Outline} :
    ∀ handle : TypeHandle, pair ∈ (handle.signatureOutline lookup callable).records →
      Carries lookup handle.within pair
  | { kind, canonical, result, arguments, .. } => by
    intro h
    have hcall : ∀ whole : TypeHandle, whole.result = result → whole.arguments = arguments →
        pair ∈ (Outline.call callable (returnedOutline lookup result) (argumentOutlines lookup arguments)).records →
        Carries lookup whole.within pair := by
      intro whole hresult harguments h
      rcases List.mem_append.1 h with h | h
      · exact carries_returnedOutline lookup result (by simp +contextual [mem_parts, hresult]) h
      · exact carries_argumentOutlines lookup arguments (by simp +contextual [mem_parts, harguments]) h
    unfold signatureOutline at h
    cases kind with
    | sugar sugar =>
      cases canonical with
      | some function => exact (carries_signatureOutline lookup callable function h).mono (within_subset_of_target rfl)
      | none => exact hcall _ rfl rfl h
    | _ => exact hcall _ rfl rfl h
termination_by structural handle => handle

theorem carries_returnedOutline (lookup : Lookup) {whole : TypeHandle} {pair : RecordKey × List Outline} :
    ∀ result : Option TypeHandle, (∀ type, result = some type → type ∈ whole.parts) →
      pair ∈ (returnedOutline lookup result).records → Carries lookup whole.within pair
  | none => by
    intro _ h
    cases h
  | some result => by
    intro hpart h
    exact (carries_outline lookup none result h).of_part (hpart result rfl)
termination_by structural result => result

theorem carries_argumentOutlines (lookup : Lookup) {whole : TypeHandle} {pair : RecordKey × List Outline} :
    ∀ arguments : List TypeHandle, (∀ argument ∈ arguments, argument ∈ whole.parts) →
      pair ∈ Outline.allRecords (argumentOutlines lookup arguments) → Carries lookup whole.within pair
  | [] => by
    intro _ h
    cases h
  | argument :: rest => by
    intro hparts h
    rcases List.mem_append.1 h with h | h
    · exact (carries_outline lookup none argument h).of_part (hparts argument List.mem_cons_self)
    · exact carries_argumentOutlines lookup rest (fun other hother => hparts other (List.mem_cons_of_mem _ hother)) h
termination_by structural arguments => arguments

theorem carries_fieldOutlines (lookup : Lookup) {whole : TypeHandle} {pair : RecordKey × List Outline} :
    ∀ fields : List FieldHandle, (∀ field ∈ fields, field ∈ whole.fields) →
      pair ∈ Outline.allRecords (fieldOutlines lookup fields) → Carries lookup whole.within pair
  | [] => by
    intro _ h
    cases h
  | { name, type } :: rest => by
    intro hfields h
    rcases List.mem_append.1 h with h | h
    · exact (carries_outline lookup none type h).of_part (field_mem_parts (hfields ⟨name, type⟩ List.mem_cons_self))
    · exact carries_fieldOutlines lookup rest (fun other hother => hfields other (List.mem_cons_of_mem _ hother)) h
termination_by structural fields => fields

end

/-- Every record among the outlines of fields comes from a handle inside one of the fields. -/
theorem exists_field_carries {lookup : Lookup} {fields : List FieldHandle} {pair : RecordKey × List Outline}
    (h : pair ∈ Outline.allRecords (fieldOutlines lookup fields)) :
    ∃ field ∈ fields, Carries lookup field.type.inside pair := by
  rw [fieldOutlines_eq_map, Outline.mem_allRecords] at h
  obtain ⟨outline, houtline, hpair⟩ := h
  obtain ⟨field, hfield, rfl⟩ := List.mem_map.1 houtline
  exact ⟨field, hfield, carries_outline lookup none field.type hpair⟩

end TypeHandle

end HeaderCatalog
