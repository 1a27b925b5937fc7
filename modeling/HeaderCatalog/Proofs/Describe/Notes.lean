import HeaderCatalog.Proofs.Describe.Heading
import HeaderCatalog.Proofs.Resolution.Resolver
import HeaderCatalog.Proofs.Settings

set_option autoImplicit false

/-!
# What descriptions note

A description notes the places it has looked at, the declarations it refers to and the blocks it meets.  What is already
known of named types enters its value, but none of its notes.  So a declaration can be described twice, in different
surroundings, and the notes compared: if the second surroundings let through all that the first ones do, then whatever
the first description notes, the second notes as well (`Noted.Within`).

The places in the notes are followed along the way.  They are those of the surroundings or come from classifying what
the front end reports, so what holds of all of these holds of every place that is noted.
-/

namespace HeaderCatalog

/-! ## Notes within other notes -/

namespace Noted

variable {α β γ δ : Type} {P : Source → Prop}

/-- What one description notes, another notes as well, and it stands at places of a certain kind.  Blocks are compared
by their headings; what they take and return may be known to one description only. -/
structure Within (P : Source → Prop) (x : Noted α) (y : Noted β) : Prop where
  located : ∀ place ∈ x.located, P place
  references : x.references ⊆ y.references
  places : ∀ block ∈ x.blocks, P block.heading.source
  headings : x.blocks.map (·.heading) ⊆ y.blocks.map (·.heading)

theorem within_pure (value : α) (y : Noted β) : (pure value : Noted α).Within P y :=
  ⟨nofun, List.nil_subset _, nofun, List.nil_subset _⟩

theorem Within.bind {x : Noted α} {y : Noted β} {f : α → Noted γ} {g : β → Noted δ} (h : x.Within P y)
    (hnext : (f x.value).Within P (g y.value)) : (x >>= f).Within P (y >>= g) where
  located := by
    intro place hplace
    rw [located_bind] at hplace
    rcases Option.or_eq_some_iff.1 hplace with hlater | ⟨-, hearlier⟩
    · exact hnext.located place hlater
    · exact h.located place hearlier
  references := by
    rw [references_bind, references_bind]
    exact List.append_subset.2 ⟨List.subset_append_of_subset_left _ h.references,
      List.subset_append_of_subset_right _ hnext.references⟩
  places := by
    intro block hblock
    rw [blocks_bind] at hblock
    rcases List.mem_append.1 hblock with hearlier | hlater
    · exact h.places block hearlier
    · exact hnext.places block hlater
  headings := by
    rw [blocks_bind, blocks_bind, List.map_append, List.map_append]
    exact List.append_subset.2 ⟨List.subset_append_of_subset_left _ h.headings,
      List.subset_append_of_subset_right _ hnext.headings⟩

/-- What is made of the values adds nothing to the notes. -/
theorem Within.map {x : Noted α} {y : Noted β} (h : x.Within P y) (f : α → γ) (g : β → δ) :
    (f <$> x).Within P (g <$> y) :=
  h.bind (within_pure _ _)

/-! ### Loops -/

theorem references_mapM (f : α → Noted β) (xs : List α) :
    (xs.mapM f).references = xs.flatMap fun x => (f x).references := by
  induction xs with
  | nil => rfl
  | cons x xs ih => simp [List.mapM_cons, ih]

theorem blocks_mapM (f : α → Noted β) (xs : List α) :
    (xs.mapM f).blocks = xs.flatMap fun x => (f x).blocks := by
  induction xs with
  | nil => rfl
  | cons x xs ih => simp [List.mapM_cons, ih]

theorem exists_located_of_mapM {f : α → Noted β} {xs : List α} {place : Source}
    (h : place ∈ (xs.mapM f).located) : ∃ x ∈ xs, place ∈ (f x).located := by
  induction xs with
  | nil => cases h
  | cons x xs ih =>
    rw [List.mapM_cons, located_bind, located_bind, located_pure, Option.none_or] at h
    rcases Option.or_eq_some_iff.1 h with hlater | ⟨-, hfirst⟩
    · obtain ⟨later, hmem, hlocated⟩ := ih hlater
      exact ⟨later, List.mem_cons_of_mem x hmem, hlocated⟩
    · exact ⟨x, List.mem_cons_self, hfirst⟩

/-- A loop over more of the same notes more. -/
theorem within_mapM {f : α → Noted β} {g : α → Noted γ} {xs ys : List α} (hsubset : xs ⊆ ys)
    (h : ∀ x ∈ xs, (f x).Within P (g x)) : (xs.mapM f).Within P (ys.mapM g) where
  located := by
    intro place hplace
    obtain ⟨x, hx, hlocated⟩ := exists_located_of_mapM hplace
    exact (h x hx).located place hlocated
  references := by
    rw [references_mapM, references_mapM]
    intro location hlocation
    obtain ⟨x, hx, hreferred⟩ := List.mem_flatMap.1 hlocation
    exact List.mem_flatMap.2 ⟨x, hsubset hx, (h x hx).references hreferred⟩
  places := by
    rw [blocks_mapM]
    intro block hblock
    obtain ⟨x, hx, hmet⟩ := List.mem_flatMap.1 hblock
    exact (h x hx).places block hmet
  headings := by
    rw [blocks_mapM, blocks_mapM, List.map_flatMap, List.map_flatMap]
    intro heading hheading
    obtain ⟨x, hx, hmet⟩ := List.mem_flatMap.1 hheading
    exact List.mem_flatMap.2 ⟨x, hsubset hx, (h x hx).headings hmet⟩

/-- A loop that carries a value along notes what its steps note, whatever values they are given. -/
theorem within_foldlM {f : β → α → Noted β} {g : γ → α → Noted γ} {xs : List α}
    (h : ∀ x ∈ xs, ∀ first second, (f first x).Within P (g second x)) (first : β) (second : γ) :
    (xs.foldlM f first).Within P (xs.foldlM g second) := by
  induction xs generalizing first second with
  | nil => exact within_pure _ _
  | cons x xs ih =>
    rw [List.foldlM_cons, List.foldlM_cons]
    exact (h x List.mem_cons_self first second).bind
      (ih (fun y hy => h y (List.mem_cons_of_mem x hy)) _ _)

theorem within_refer (location : Option Location) : (refer location).Within P (refer location) :=
  ⟨nofun, List.Subset.refl _, nofun, List.nil_subset _⟩

/-- A block that is noted behind those inside it has the heading it has in the other description. -/
theorem Within.collect {x y : Noted (Option Block)} (h : x.Within P y)
    (hplace : ∀ block ∈ x.value, P block.heading.source)
    (hheading : x.value.map (·.heading) = y.value.map (·.heading)) : x.collect.Within P y.collect where
  located := h.located
  references := h.references
  places := by
    intro block hblock
    rcases List.mem_append.1 hblock with hinner | houter
    · exact h.places block hinner
    · exact hplace block (Option.mem_toList.1 houter)
  headings := by
    have hvalues : x.value.toList.map (·.heading) = y.value.toList.map (·.heading) := by
      rw [← Option.toList_map, ← Option.toList_map, hheading]
    simp only [Noted.collect, List.map_append, hvalues]
    exact List.append_subset.2 ⟨List.subset_append_of_subset_left _ h.headings,
      List.subset_append_of_subset_right _ (List.Subset.refl _)⟩

end Noted

/-! ## Surroundings within other surroundings -/

/-- The spelling of the block type that a handle is under its sugar, if it is one. -/
def TypeHandle.blockSpelling? (handle : TypeHandle) : Option String :=
  if handle.desugared.kind = .blockPointer then some handle.desugared.spelling else none

/-- Everything that applies in some surroundings applies in others; what is already known may differ, and where the
declarations stand that are described.  The places to be classified there are of a certain kind. -/
structure Surroundings.Tightens (P : Source → Prop) (here there : Surroundings) : Prop where
  settings : here.settings.Tightens there.settings
  classify : ∀ location, P (here.settings.classify location)

/-- Everything that applies at a place of a certain kind applies at the same place in other surroundings. -/
structure Surroundings.Within (P : Source → Prop) (here there : Surroundings) : Prop extends
    Surroundings.Tightens P here there where
  source_eq : here.source = there.source
  source : P here.source

namespace Surroundings

variable {P : Source → Prop} {here there : Surroundings}

/-- Going to a declaration notes its place, and that is where both descriptions go on. -/
theorem Tightens.enter (h : here.Tightens P there) (node : Node) :
    (here.enter node).Within P (there.enter node) ∧ (here.enter node).value.Within P (there.enter node).value := by
  have hplace : here.settings.classify node.location = there.settings.classify node.location := by
    rw [h.settings.classify_eq]
  refine ⟨⟨?_, List.nil_subset _, nofun, List.nil_subset _⟩, ⟨h.settings, h.classify⟩, hplace, h.classify _⟩
  rintro place ⟨⟩
  exact h.classify node.location

/-! ### Types -/

theorem within_ofResolving {α β : Type} {first : Resolving α} {second : Resolving β}
    (h : first.references = second.references) :
    (Noted.ofResolving first).Within P (Noted.ofResolving second) :=
  ⟨nofun, by rw [Noted.references_ofResolving, Noted.references_ofResolving, h]; exact List.Subset.refl _, nofun,
    List.nil_subset _⟩

/-- What the type of a declaration refers to does not depend on what is known. -/
theorem within_type (hint : Option String) (handle : TypeHandle) :
    (here.type hint handle).Within P (there.type hint handle) :=
  within_ofResolving ((handle.references_reduce _ hint).trans (handle.references_reduce _ hint).symm)

theorem within_memberType (hint : Option String) (handle : TypeHandle) :
    (here.memberType hint handle).Within P (there.memberType hint handle) :=
  within_ofResolving ((handle.references_reduceMember _ hint).trans (handle.references_reduceMember _ hint).symm)

theorem within_signature (callable : Callable) :
    (here.signature callable).Within P (there.signature callable) :=
  within_ofResolving ((callable.references_reduceSignature _).trans (callable.references_reduceSignature _).symm)

/-! ### Blocks -/

theorem within_blockReturn (result : Option TypeHandle) :
    (here.blockReturn result).Within P (there.blockReturn result) := by
  cases result with
  | none => exact Noted.within_pure _ _
  | some handle => exact within_type none handle

/-- A block that calls a function stands where it is met, under its spelling. -/
theorem heading_blockOf (here : Surroundings) (spelling : String) (function : TypeHandle) :
    (here.blockOf spelling function).value.heading = ⟨spelling, .block, here.source, none⟩ := by
  obtain ⟨kind, _, _, canonical, _, _, _, _, _, _, _⟩ := function
  unfold blockOf
  cases kind with
  | sugar sugar =>
    cases canonical with
    | some function => exact heading_blockOf here spelling function
    | none => rfl
  | _ => rfl

theorem heading_block? (here : Surroundings) (handle : TypeHandle) :
    (here.block? handle).value.map (·.heading) =
      handle.blockSpelling?.map fun spelling => ⟨spelling, .block, here.source, none⟩ := by
  obtain ⟨kind, _, pointee, canonical, _, _, _, _, _, _, _⟩ := handle
  unfold block? TypeHandle.blockSpelling? TypeHandle.desugared
  cases kind with
  | sugar sugar =>
    cases canonical with
    | some target => exact heading_block? here target
    | none => rfl
  | blockPointer =>
    cases pointee with
    | none => rfl
    | some function => exact congrArg some (here.heading_blockOf _ function)
  | _ => rfl

/-- The block that a handle is stands at the place of the description. -/
theorem source_block? {handle : TypeHandle} {block : Block} (h : block ∈ (here.block? handle).value) :
    block.heading.source = here.source := by
  have hheading := here.heading_block? handle
  rw [Option.mem_def.1 h, Option.map_some] at hheading
  obtain ⟨spelling, -, hspelling⟩ := Option.map_eq_some_iff.1 hheading.symm
  rw [← hspelling]

mutual

/-- The blocks inside a block are those that its handle tells of, whatever is known of the types they take. -/
theorem within_block? (h : here.Within P there) : ∀ handle : TypeHandle,
    (here.block? handle).Within P (there.block? handle)
  | { kind, spelling, canonical, pointee, .. } => by
    unfold block?
    cases kind with
    | sugar sugar =>
      cases canonical with
      | some target => exact within_block? h target
      | none => exact Noted.within_pure _ _
    | blockPointer =>
      cases pointee with
      | none => exact Noted.within_pure _ _
      | some function => exact (within_blockOf h spelling function).map _ _
    | _ => exact Noted.within_pure _ _

theorem within_blockOf (h : here.Within P there) (spelling : String) : ∀ function : TypeHandle,
    (here.blockOf spelling function).Within P (there.blockOf spelling function)
  | { kind, canonical, result, arguments, .. } => by
    have hcall (callable : Callable) (entry other : ResolvedType → List Argument → Encoding → Block) :
        (do
          let returns ← here.blockReturn result
          let described ← here.blockArguments arguments
          let encoding ← here.signature callable
          pure (entry returns described encoding)).Within P
        (do
          let returns ← there.blockReturn result
          let described ← there.blockArguments arguments
          let encoding ← there.signature callable
          pure (other returns described encoding)) :=
      (within_blockReturn result).bind ((within_blockArguments h arguments).bind
        ((within_signature callable).bind (Noted.within_pure _ _)))
    unfold blockOf
    cases kind with
    | sugar sugar =>
      cases canonical with
      | some function => exact within_blockOf h spelling function
      | none => exact hcall _ _ _
    | _ => exact hcall _ _ _

theorem within_blockArguments (h : here.Within P there) : ∀ arguments : List TypeHandle,
    (here.blockArguments arguments).Within P (there.blockArguments arguments)
  | [] => Noted.within_pure _ _
  | argument :: rest => by
    have hblock := (within_block? h argument).collect (fun block hblock => by rw [source_block? hblock]; exact h.source)
      (by rw [heading_block?, heading_block?, h.source_eq])
    unfold blockArguments
    exact (within_type none argument).bind (hblock.bind ((within_blockArguments h rest).bind (Noted.within_pure _ _)))

end

theorem within_collectBlock? (h : here.Within P there) (handle : TypeHandle) :
    (here.collectBlock? handle).Within P (there.collectBlock? handle) := by
  refine (within_block? h handle).collect (fun block hblock => ?_) ?_
  · rw [source_block? hblock]
    exact h.source
  · rw [heading_block?, heading_block?, h.source_eq]

/-! ### Members, arguments and returned values -/

theorem within_declaredType (h : here.Within P there) (hint : Option String) (handle : Option TypeHandle) :
    (here.declaredType hint handle).Within P (there.declaredType hint handle) := by
  cases handle with
  | none => exact Noted.within_pure _ _
  | some handle =>
    exact (within_type hint handle).bind ((within_collectBlock? h handle).bind (Noted.within_pure _ _))

theorem within_returned (h : here.Within P there) (hint : Option String) (handle : TypeHandle) :
    (here.returned hint handle).Within P (there.returned hint handle) :=
  (within_type hint handle).bind ((within_collectBlock? h handle).bind (Noted.within_pure _ _))

theorem within_argument (h : here.Within P there) (hint : Option String) (node : Node) :
    (here.argument hint node).Within P (there.argument hint node) :=
  (within_declaredType h hint node.type).bind (Noted.within_pure _ _)

theorem within_arguments (h : here.Within P there) (hints : List String) (node : Node) :
    (here.arguments hints node).Within P (there.arguments hints node) :=
  Noted.within_mapM (List.Subset.refl _) fun pair _ => within_argument h hints[pair.2]? pair.1

/-- The class that has a method does not enter its notes. -/
theorem within_method (h : here.Within P there) (owner other : String) (node : Node) :
    (here.method owner node).Within P (there.method other node) := by
  have harguments (hints : List String) := within_arguments h hints node
  unfold method
  dsimp only
  split
  · exact (within_returned h _ _).bind ((harguments _).bind (Noted.within_pure _ _))
  · exact (Noted.within_pure _ _).bind ((harguments _).bind (Noted.within_pure _ _))
  · exact (Noted.within_pure _ _).bind ((harguments _).bind (Noted.within_pure _ _))

theorem within_property (h : here.Within P there) (node : Node) :
    (here.property node).Within P (there.property node) :=
  (within_declaredType h node.encoding node.type).bind (Noted.within_pure _ _)

theorem within_ivar (h : here.Within P there) (node : Node) : (here.ivar node).Within P (there.ivar node) :=
  (within_declaredType h node.encoding node.type).bind (Noted.within_pure _ _)

/-! ### Declarations with methods -/

/-- References count for both descriptions; a member that applies for the first one applies for the second one. -/
theorem within_withChild (h : here.Within P there) (child : Node) (entry other : ClassEntry) :
    (here.withChild entry child).Within P (there.withChild other child) := by
  have hmember : ∀ {x y : Noted ClassEntry}, x.Within P y →
      (if child.isAvailable here.settings.minVersion = true then x else pure entry).Within P
        (if child.isAvailable there.settings.minVersion = true then y else pure other) := by
    intro x y hxy
    by_cases havailable : child.isAvailable here.settings.minVersion = true
    · rwa [if_pos havailable, if_pos (h.settings.isAvailable havailable)]
    · rw [if_neg havailable]
      exact Noted.within_pure _ _
  unfold withChild
  cases child.kind with
  | superclassRef | protocolRef => exact (Noted.within_refer child.referenced).bind (Noted.within_pure _ _)
  | instanceMethod | classMethod => exact hmember ((within_method h _ _ child).bind (Noted.within_pure _ _))
  | property => exact hmember ((within_property h child).bind (Noted.within_pure _ _))
  | ivar => exact hmember ((within_ivar h child).bind (Noted.within_pure _ _))
  | _ => exact hmember (Noted.within_pure _ _)

theorem within_withChildren (h : here.Within P there) (entry other : ClassEntry) (node : Node) :
    (here.withChildren entry node).Within P (there.withChildren other node) :=
  Noted.within_foldlM (fun child _ => within_withChild h child) entry other

theorem within_interface (h : here.Tightens P there) (node : Node) :
    (here.interface node).Within P (there.interface node) :=
  (h.enter node).1.bind (within_withChildren (h.enter node).2 _ _ node)

theorem within_protocol (h : here.Tightens P there) (node : Node) :
    (here.protocol node).Within P (there.protocol node) :=
  (h.enter node).1.bind (within_withChildren (h.enter node).2 _ _ node)

theorem within_category? (h : here.Tightens P there) (node : Node) :
    (here.category? node).Within P (there.category? node) := by
  unfold category?
  cases extendedClass? node with
  | none => exact Noted.within_pure _ _
  | some extended =>
    exact (Noted.within_refer extended.referenced).bind ((h.enter node).1.bind
      ((within_withChildren (h.enter node).2 _ _ node).bind (Noted.within_pure _ _)))

/-! ### Other declarations -/

theorem within_field (node : Node) : (here.field node).Within P (there.field node) := by
  unfold field
  cases node.type with
  | none => exact (Noted.within_pure _ _).bind (Noted.within_pure _ _)
  | some handle => exact (within_memberType node.encoding handle).bind (Noted.within_pure _ _)

theorem within_record (h : here.Tightens P there) (kind : RecordKind) (node : Node) :
    (here.record kind node).Within P (there.record kind node) :=
  (h.enter node).1.bind ((Noted.within_mapM (List.Subset.refl _) fun child _ => within_field child).bind
    (Noted.within_pure _ _))

theorem within_integerType (node : Node) : (here.integerType node).Within P (there.integerType node) := by
  unfold integerType
  cases node.type with
  | none => exact Noted.within_pure _ _
  | some handle => exact within_type node.encoding handle

theorem within_enum (h : here.Tightens P there) (node : Node) : (here.enum node).Within P (there.enum node) :=
  (h.enter node).1.bind ((within_integerType node).bind (Noted.within_pure _ _))

/-- Constants that apply for the first description apply for the second one. -/
theorem within_anonymousConstants (h : here.Tightens P there) (node : Node) :
    (here.anonymousConstants node).Within P (there.anonymousConstants node) :=
  (within_integerType node).bind (Noted.within_mapM (h.settings.availableConstants_subset node) fun constant _ =>
    (h.enter constant).1.bind (Noted.within_pure _ _))

theorem within_global (h : here.Tightens P there) (node : Node) : (here.global node).Within P (there.global node) :=
  (h.enter node).1.bind ((within_declaredType (h.enter node).2 _ _).bind (Noted.within_pure _ _))

theorem within_function (h : here.Tightens P there) (node : Node) :
    (here.function node).Within P (there.function node) := by
  unfold function
  refine (h.enter node).1.bind ?_
  have harguments := within_arguments (h.enter node).2 [] node
  dsimp only
  split
  · exact (within_returned (h.enter node).2 none _).bind (harguments.bind (Noted.within_pure _ _))
  · exact (Noted.within_pure _ _).bind (harguments.bind (Noted.within_pure _ _))

theorem within_synonym (h : here.Tightens P there) (node : Node) : (here.synonym node).Within P (there.synonym node) :=
  (h.enter node).1.bind ((within_declaredType (h.enter node).2 _ _).bind (Noted.within_pure _ _))

theorem within_synonymOfRecord (h : here.Tightens P there) (entry other : RecordEntry) (node : Node) :
    (here.synonymOfRecord entry node).Within P (there.synonymOfRecord other node) :=
  (h.enter node).1.bind (Noted.within_pure _ _)

end Surroundings

end HeaderCatalog
