import HeaderCatalog.Proofs.Resolution.Sugar

set_option autoImplicit false

/-!
# All handles of a handle

`handles` lists a handle and every handle inside it, those included that resolving never looks at.  So it bounds what
resolving can refer to: every reference is the place where one of these handles is declared (`references_subset`).
-/

namespace HeaderCatalog

namespace TypeHandle

/-! ## The handles inside a handle -/

/-- The handles that a handle is directly made of. -/
def components : TypeHandle → List TypeHandle
  | { pointee, canonical, result, arguments, fields, element, .. } =>
    pointee.toList ++ canonical.toList ++ result.toList ++ arguments ++ fields.map (·.type) ++ element.toList

mutual

/-- A handle and every handle inside it, the outermost first. -/
def handles : TypeHandle → List TypeHandle
  | { kind, spelling, pointee, canonical, result, arguments, fields, element, size, variadic, declaration } =>
    { kind, spelling, pointee, canonical, result, arguments, fields, element, size, variadic, declaration } ::
      (handlesOfOption pointee ++ handlesOfOption canonical ++ handlesOfOption result ++ handlesOfAll arguments ++
        handlesOfFields fields ++ handlesOfOption element)

/-- The handles of a handle that may be missing. -/
def handlesOfOption : Option TypeHandle → List TypeHandle
  | none => []
  | some handle => handles handle

/-- The handles of several handles. -/
def handlesOfAll : List TypeHandle → List TypeHandle
  | [] => []
  | handle :: rest => handles handle ++ handlesOfAll rest

/-- The handles of the types of fields. -/
def handlesOfFields : List FieldHandle → List TypeHandle
  | [] => []
  | { type, .. } :: rest => handles type ++ handlesOfFields rest

end

theorem handlesOfOption_eq (handle : Option TypeHandle) : handlesOfOption handle = handle.toList.flatMap handles := by
  cases handle with
  | none => rfl
  | some handle => exact (List.flatMap_singleton handles handle).symm

theorem handlesOfAll_eq (all : List TypeHandle) : handlesOfAll all = all.flatMap handles := by
  induction all with
  | nil => rfl
  | cons handle rest ih => rw [handlesOfAll, ih, List.flatMap_cons]

theorem handlesOfFields_eq (fields : List FieldHandle) :
    handlesOfFields fields = (fields.map (·.type)).flatMap handles := by
  induction fields with
  | nil => rfl
  | cons field rest ih =>
    obtain ⟨name, type⟩ := field
    rw [handlesOfFields, ih, List.map_cons, List.flatMap_cons]

theorem handles_eq (handle : TypeHandle) : handle.handles = handle :: handle.components.flatMap handles := by
  cases handle
  simp only [handles, components, handlesOfOption_eq, handlesOfAll_eq, handlesOfFields_eq, List.flatMap_append]

theorem mem_handles_self (handle : TypeHandle) : handle ∈ handle.handles := by
  rw [handles_eq]
  exact List.mem_cons_self

theorem handles_subset {part whole : TypeHandle} (hpart : part ∈ whole.components) : part.handles ⊆ whole.handles := by
  rw [handles_eq whole]
  exact fun inner hinner => List.mem_cons_of_mem _ (List.mem_flatMap.2 ⟨part, hpart, hinner⟩)

theorem forall_mem_components {handle : TypeHandle} {P : TypeHandle → Prop} :
    (∀ part ∈ handle.components, P part) ↔
      (∀ part ∈ handle.pointee, P part) ∧ (∀ part ∈ handle.canonical, P part) ∧ (∀ part ∈ handle.result, P part) ∧
        (∀ part ∈ handle.arguments, P part) ∧ (∀ field ∈ handle.fields, P field.type) ∧
        ∀ part ∈ handle.element, P part := by
  cases handle
  simp only [components, List.forall_mem_append, List.forall_mem_map, Option.mem_toList, Option.mem_def, and_assoc]

section

variable {part whole : TypeHandle}

theorem mem_components : part ∈ whole.components ↔
    whole.pointee = some part ∨ whole.canonical = some part ∨ whole.result = some part ∨ part ∈ whole.arguments ∨
      part ∈ whole.fields.map (·.type) ∨ whole.element = some part := by
  cases whole
  simp [components]

theorem handles_subset_of_pointee (h : whole.pointee = some part) : part.handles ⊆ whole.handles :=
  handles_subset (mem_components.2 (Or.inl h))

theorem handles_subset_of_canonical (h : whole.canonical = some part) : part.handles ⊆ whole.handles :=
  handles_subset (mem_components.2 (Or.inr (Or.inl h)))

theorem handles_subset_of_result (h : whole.result = some part) : part.handles ⊆ whole.handles :=
  handles_subset (mem_components.2 (Or.inr (Or.inr (Or.inl h))))

theorem handles_subset_of_argument (h : part ∈ whole.arguments) : part.handles ⊆ whole.handles :=
  handles_subset (mem_components.2 (Or.inr (Or.inr (Or.inr (Or.inl h)))))

theorem handles_subset_of_field {field : FieldHandle} (h : field ∈ whole.fields) :
    field.type.handles ⊆ whole.handles :=
  handles_subset (mem_components.2 (Or.inr (Or.inr (Or.inr (Or.inr (Or.inl (List.mem_map_of_mem h)))))))

theorem handles_subset_of_element (h : whole.element = some part) : part.handles ⊆ whole.handles :=
  handles_subset (mem_components.2 (Or.inr (Or.inr (Or.inr (Or.inr (Or.inr h))))))

end

/-- Looking through sugar stays inside the handle. -/
theorem handles_desugared_subset (handle : TypeHandle) : handle.desugared.handles ⊆ handle.handles := by
  fun_induction desugared handle with
  | case1 sugar spelling pointee target result arguments fields element size variadic declaration ih =>
    exact List.Subset.trans ih (handles_subset_of_canonical rfl)
  | case2 handle => exact List.Subset.refl _

/-- What a call returns and takes stays inside the handle that is called. -/
theorem handles_subset_of_callable? {handle : TypeHandle} {call : Callable} (h : handle.callable? = some call) :
    (∀ result ∈ call.result, result.handles ⊆ handle.handles) ∧
      ∀ argument ∈ call.arguments, argument.handles ⊆ handle.handles := by
  have hfunction : ∀ function ∈ call.function, function.handles ⊆ handle.handles := by
    have hcall : call.function = handle.desugared.pointee.map desugared := by
      unfold callable? at h
      dsimp only at h
      split at h
      · cases h
        rfl
      · split at h
        · cases h
          rfl
        · cases h
      · cases h
    intro function hmem
    rw [Option.mem_def, hcall] at hmem
    obtain ⟨pointee, hpointee, rfl⟩ := Option.map_eq_some_iff.1 hmem
    have hpointed : pointee.handles ⊆ handle.handles :=
      List.Subset.trans (handles_subset_of_pointee hpointee) (handles_desugared_subset handle)
    exact List.Subset.trans (handles_desugared_subset pointee) hpointed
  cases hcall : call.function with
  | none => exact ⟨by simp [Callable.result, hcall], by simp [Callable.arguments, hcall]⟩
  | some function =>
    have hinside := hfunction function hcall
    refine ⟨fun result hresult => ?_, fun argument hargument => ?_⟩
    · have hreturned : function.result = some result := by simpa [Callable.result, hcall] using hresult
      exact List.Subset.trans (handles_subset_of_result hreturned) hinside
    · have htaken : argument ∈ function.arguments := by simpa [Callable.arguments, hcall] using hargument
      exact List.Subset.trans (handles_subset_of_argument htaken) hinside

/-! ## What resolving refers to -/

/-- The places where a handle and the handles inside it are declared. -/
def declarations (handle : TypeHandle) : List Location := handle.handles.flatMap (·.declaration.toList)

theorem declarations_subset {part whole : TypeHandle} (hpart : part.handles ⊆ whole.handles) :
    part.declarations ⊆ whole.declarations := by
  intro location hlocation
  obtain ⟨inner, hinner, hdeclared⟩ := List.mem_flatMap.1 hlocation
  exact List.mem_flatMap.2 ⟨inner, hpart hinner, hdeclared⟩

theorem declaration_subset (handle : TypeHandle) : handle.declaration.toList ⊆ handle.declarations :=
  fun _ hlocation => List.mem_flatMap.2 ⟨handle, handle.mem_handles_self, hlocation⟩

/-- Opening a record adds nothing but what its members add. -/
theorem openedReferences_subset {visiting : List RecordKey} {scope : Scope} {key : RecordKey}
    {members : List RecordKey → List Location} {places : List Location} (h : ∀ visiting, members visiting ⊆ places) :
    openedReferences visiting scope key members ⊆ places := by
  unfold openedReferences
  split
  · exact h _
  · exact List.nil_subset _

mutual

/-- Every place that resolving meets is that of a handle inside the resolved one. -/
theorem referencesIn_subset (visiting : List RecordKey) (scope : Scope) (hint : Option String) :
    ∀ handle : TypeHandle, handle.referencesIn visiting scope hint ⊆ handle.declarations
  | { kind, spelling, pointee, canonical, result, arguments, fields, element, size, variadic, declaration } => by
    let whole : TypeHandle :=
      { kind, spelling, pointee, canonical, result, arguments, fields, element, size, variadic, declaration }
    have hpointee {part : TypeHandle} (h : pointee = some part) : part.declarations ⊆ whole.declarations :=
      declarations_subset (handles_subset_of_pointee h)
    have hcanonical {part : TypeHandle} (h : canonical = some part) : part.declarations ⊆ whole.declarations :=
      declarations_subset (handles_subset_of_canonical h)
    have helement {part : TypeHandle} (h : element = some part) : part.declarations ⊆ whole.declarations :=
      declarations_subset (handles_subset_of_element h)
    have hrest : referencesRest visiting scope hint canonical ⊆ whole.declarations := fun location hlocation =>
      have ⟨target, htarget, hmem⟩ := mem_referencesRest visiting scope hint canonical hlocation
      hcanonical htarget hmem
    have hfields (visiting : List RecordKey) : memberReferences visiting fields ⊆ whole.declarations :=
      fun location hlocation =>
        have ⟨field, hfield, hmem⟩ := mem_memberReferences visiting fields hlocation
        declarations_subset (handles_subset_of_field hfield) hmem
    unfold referencesIn
    refine List.append_subset.2 ⟨declaration_subset whole, ?_⟩
    cases kind with
    | pointer =>
      cases pointee with
      | none => exact hrest
      | some target =>
        dsimp only
        split
        · exact List.nil_subset _
        split
        · exact List.Subset.trans (signatureReferencesIn_subset visiting target) (hpointee rfl)
        · exact List.Subset.trans (referencesIn_subset visiting scope.behindPointer none target) (hpointee rfl)
    | blockPointer =>
      cases pointee with
      | none => exact List.nil_subset _
      | some function => exact List.Subset.trans (signatureReferencesIn_subset visiting function) (hpointee rfl)
    | objcObjectPointer =>
      cases pointee with
      | none => exact List.nil_subset _
      | some target => exact List.Subset.trans (declaration_subset target) (hpointee rfl)
    | record kind => exact openedReferences_subset hfields
    | enum =>
      cases canonical with
      | none => exact List.nil_subset _
      | some integer => exact List.Subset.trans (referencesIn_subset visiting scope none integer) (hcanonical rfl)
    | sugar sugar =>
      cases canonical with
      | some target =>
        dsimp only
        split
        · exact List.Subset.trans (recordReferencesIn_subset visiting scope _ target) (hcanonical rfl)
        · exact List.Subset.trans (referencesIn_subset visiting scope hint target) (hcanonical rfl)
      | none =>
        cases sugar with
        | elaborated =>
          dsimp only
          split
          · exact openedReferences_subset hfields
          · exact List.nil_subset _
        | synonym | attributed => exact List.nil_subset _
    | constantArray =>
      cases element with
      | none => exact hrest
      | some element => exact List.Subset.trans (referencesIn_subset visiting scope none element) (helement rfl)
    | incompleteArray =>
      cases element with
      | none => exact hrest
      | some element =>
        exact List.Subset.trans (referencesIn_subset visiting scope.behindPointer none element) (helement rfl)
    | vector | unexposed | dependent | invalid | other _ => exact hrest
    | _ => exact List.nil_subset _

theorem mem_referencesRest (visiting : List RecordKey) (scope : Scope) (hint : Option String) {location : Location} :
    ∀ canonical : Option TypeHandle, location ∈ referencesRest visiting scope hint canonical →
      ∃ target, canonical = some target ∧ location ∈ target.declarations
  | none, h => nomatch h
  | some target, h => by
    rw [referencesRest] at h
    split at h
    · cases h
    · exact ⟨target, rfl, referencesIn_subset visiting scope none target h⟩

theorem recordReferencesIn_subset (visiting : List RecordKey) (scope : Scope) (key : RecordKey) :
    ∀ handle : TypeHandle, handle.recordReferencesIn visiting scope key ⊆ handle.declarations
  | { kind, spelling, pointee, canonical, result, arguments, fields, element, size, variadic, declaration } => by
    unfold recordReferencesIn
    refine openedReferences_subset fun visiting location hlocation => ?_
    obtain ⟨field, hfield, hmem⟩ := mem_memberReferences visiting fields hlocation
    exact declarations_subset (handles_subset_of_field hfield) hmem

theorem signatureReferencesIn_subset (visiting : List RecordKey) :
    ∀ handle : TypeHandle, handle.signatureReferencesIn visiting ⊆ handle.declarations
  | { kind, spelling, pointee, canonical, result, arguments, fields, element, size, variadic, declaration } => by
    let whole : TypeHandle :=
      { kind, spelling, pointee, canonical, result, arguments, fields, element, size, variadic, declaration }
    have hcall : returnedReferences visiting result ++ argumentReferences visiting arguments ⊆ whole.declarations := by
      refine List.append_subset.2 ⟨fun location hlocation => ?_, fun location hlocation => ?_⟩
      · obtain ⟨returned, hreturned, hmem⟩ := mem_returnedReferences visiting result hlocation
        exact declarations_subset (handles_subset_of_result hreturned) hmem
      · obtain ⟨argument, hargument, hmem⟩ := mem_argumentReferences visiting arguments hlocation
        exact declarations_subset (handles_subset_of_argument hargument) hmem
    unfold signatureReferencesIn
    cases kind with
    | sugar sugar =>
      cases canonical with
      | some function =>
        exact List.Subset.trans (signatureReferencesIn_subset visiting function)
          (declarations_subset (handles_subset_of_canonical rfl))
      | none => exact hcall
    | _ => exact hcall

theorem mem_returnedReferences (visiting : List RecordKey) {location : Location} :
    ∀ result : Option TypeHandle, location ∈ returnedReferences visiting result →
      ∃ returned, result = some returned ∧ location ∈ returned.declarations
  | none, h => nomatch h
  | some returned, h => ⟨returned, rfl, referencesIn_subset visiting .outer none returned h⟩

theorem mem_argumentReferences (visiting : List RecordKey) {location : Location} :
    ∀ arguments : List TypeHandle, location ∈ argumentReferences visiting arguments →
      ∃ argument ∈ arguments, location ∈ argument.declarations
  | [], h => nomatch h
  | argument :: rest, h => by
    rw [argumentReferences] at h
    rcases List.mem_append.1 h with h | h
    · exact ⟨argument, List.mem_cons_self, referencesIn_subset visiting .outer none argument h⟩
    · obtain ⟨other, hother, hmem⟩ := mem_argumentReferences visiting rest h
      exact ⟨other, List.mem_cons_of_mem _ hother, hmem⟩

theorem mem_memberReferences (visiting : List RecordKey) {location : Location} :
    ∀ fields : List FieldHandle, location ∈ memberReferences visiting fields →
      ∃ field ∈ fields, location ∈ field.type.declarations
  | [], h => nomatch h
  | { name, type } :: rest, h => by
    rw [memberReferences] at h
    rcases List.mem_append.1 h with h | h
    · exact ⟨⟨name, type⟩, List.mem_cons_self, referencesIn_subset visiting .field none type h⟩
    · obtain ⟨other, hother, hmem⟩ := mem_memberReferences visiting rest h
      exact ⟨other, List.mem_cons_of_mem _ hother, hmem⟩

end

theorem references_subset (hint : Option String) (handle : TypeHandle) :
    handle.references hint ⊆ handle.declarations := by
  rw [references_eq]
  exact referencesIn_subset [] .outer hint handle

theorem memberTypeReferences_subset (hint : Option String) (handle : TypeHandle) :
    handle.memberTypeReferences hint ⊆ handle.declarations := by
  rw [memberTypeReferences_eq]
  exact referencesIn_subset [] .field hint handle

end TypeHandle

/-- A signature refers to what its call returns and takes. -/
theorem Callable.signatureReferences_subset {call : Callable} {places : List Location}
    (hresult : ∀ result ∈ call.result, result.declarations ⊆ places)
    (harguments : ∀ argument ∈ call.arguments, argument.declarations ⊆ places) :
    call.signatureReferences ⊆ places := by
  rw [signatureReferences_eq]
  refine List.append_subset.2 ⟨fun location hlocation => ?_, fun location hlocation => ?_⟩
  · obtain ⟨result, hcall, hmem⟩ := TypeHandle.mem_returnedReferences [] call.result hlocation
    exact hresult result hcall hmem
  · obtain ⟨argument, hcall, hmem⟩ := TypeHandle.mem_argumentReferences [] call.arguments hlocation
    exact harguments argument hcall hmem

end HeaderCatalog
