import HeaderCatalog.Proofs.Describe.Met
import HeaderCatalog.Proofs.Resolution.Handles
import HeaderCatalog.Proofs.Survey.Restriction

set_option autoImplicit false

/-!
# What descriptions refer to

A description refers to places that the front end reports: where a superclass, a protocol or the class of a category is
declared, and where the types are declared that are resolved on the way.  So it can only refer to places that are
written somewhere in the declaration (`refersTo_account`), whatever is known and whatever the settings are.

In the other direction, a declaration with methods refers to every superclass and protocol among its children.  These
references are noted before it is asked whether a member applies, so none of them is lost
(`mem_references_withChildren`).
-/

namespace HeaderCatalog

/-! ## Places written in a declaration -/

namespace Node

/-- The types that a node reports. -/
def types (node : Node) : List TypeHandle := node.type.toList ++ node.resultType.toList

/-- The places written in a node, apart from those inside it. -/
def ownLocations (node : Node) : List Location :=
  node.location.toList ++ node.referenced.toList ++ node.types.flatMap (·.declarations)

/-- The places written anywhere in a node. -/
def locations (node : Node) : List Location := node.subtree.flatMap (·.ownLocations)

variable {node child : Node} {handle : TypeHandle} {location : Location}

theorem locations_subset {part whole : Node} (h : part.subtree ⊆ whole.subtree) :
    part.locations ⊆ whole.locations := by
  intro location hlocation
  obtain ⟨inner, hinner, hown⟩ := List.mem_flatMap.1 hlocation
  exact List.mem_flatMap.2 ⟨inner, h hinner, hown⟩

theorem ownLocations_subset (node : Node) : node.ownLocations ⊆ node.locations :=
  fun _ hlocation => List.mem_flatMap.2 ⟨node, node.mem_subtree, hlocation⟩

theorem mem_locations_of_referenced (h : node.referenced = some location) : location ∈ node.locations :=
  node.ownLocations_subset (by simp [ownLocations, h])

theorem declarations_subset_of_types (h : handle ∈ node.types) : handle.declarations ⊆ node.locations :=
  fun _ hlocation =>
    node.ownLocations_subset (List.mem_append_right _ (List.mem_flatMap.2 ⟨handle, h, hlocation⟩))

theorem declarations_subset_of_type (h : node.type = some handle) : handle.declarations ⊆ node.locations :=
  declarations_subset_of_types (by simp [types, h])

theorem declarations_subset_of_resultType (h : node.resultType = some handle) :
    handle.declarations ⊆ node.locations :=
  declarations_subset_of_types (by simp [types, h])

theorem locations_subset_of_child (h : child ∈ node.children) : child.locations ⊆ node.locations :=
  locations_subset (subtree_subset_of_child h)

theorem locations_subset_of_childrenOf {kind : NodeKind} (h : child ∈ node.childrenOf kind) :
    child.locations ⊆ node.locations :=
  locations_subset_of_child (List.mem_of_mem_filter h)

end Node

/-! ## References among certain places -/

namespace Noted

variable {α β : Type} {places : List Location}

/-- A description refers to certain places only. -/
def RefersTo (places : List Location) (noted : Noted α) : Prop := noted.references ⊆ places

theorem RefersTo.mono {noted : Noted α} {more : List Location} (h : noted.RefersTo places) (hmore : places ⊆ more) :
    noted.RefersTo more :=
  List.Subset.trans h hmore

theorem refersTo_pure (value : α) : (pure value : Noted α).RefersTo places := List.nil_subset places

theorem RefersTo.bind {noted : Noted α} {next : α → Noted β} (h : noted.RefersTo places)
    (hnext : (next noted.value).RefersTo places) : (noted >>= next).RefersTo places := by
  rw [RefersTo, references_bind]
  exact List.append_subset.2 ⟨h, hnext⟩

theorem RefersTo.map {noted : Noted α} (h : noted.RefersTo places) (f : α → β) : (f <$> noted).RefersTo places :=
  h.bind (refersTo_pure _)

theorem RefersTo.collect {noted : Noted (Option Block)} (h : noted.RefersTo places) : noted.collect.RefersTo places := h

theorem refersTo_mapM {f : α → Noted β} {xs : List α} (h : ∀ x ∈ xs, (f x).RefersTo places) :
    (xs.mapM f).RefersTo places := by
  rw [RefersTo, references_mapM]
  intro location hlocation
  obtain ⟨x, hx, hreferred⟩ := List.mem_flatMap.1 hlocation
  exact h x hx hreferred

theorem refersTo_foldlM {f : β → α → Noted β} {xs : List α} (h : ∀ x ∈ xs, ∀ value, (f value x).RefersTo places)
    (first : β) : (xs.foldlM f first).RefersTo places := by
  induction xs generalizing first with
  | nil => exact refersTo_pure first
  | cons x xs ih =>
    rw [List.foldlM_cons]
    exact (h x List.mem_cons_self first).bind (ih (fun y hy => h y (List.mem_cons_of_mem x hy)) _)

/-- What a step of a loop refers to whatever value it is given, the loop refers to. -/
theorem mem_references_foldlM {f : β → α → Noted β} {xs : List α} {x : α} {location : Location} (hx : x ∈ xs)
    (h : ∀ value, location ∈ (f value x).references) (first : β) : location ∈ (xs.foldlM f first).references := by
  induction xs generalizing first with
  | nil => cases hx
  | cons y xs ih =>
    rw [List.foldlM_cons, references_bind]
    rcases List.mem_cons.1 hx with rfl | hx
    · exact List.mem_append_left _ (h first)
    · exact List.mem_append_right _ (ih hx _)

end Noted

namespace Surroundings

variable (here : Surroundings)

/-! ## Types and blocks -/

theorem refersTo_type (hint : Option String) (handle : TypeHandle) :
    (here.type hint handle).RefersTo handle.declarations := by
  rw [Noted.RefersTo, type, Noted.references_ofResolving, TypeHandle.references_reduce]
  exact handle.references_subset hint

theorem refersTo_memberType (hint : Option String) (handle : TypeHandle) :
    (here.memberType hint handle).RefersTo handle.declarations := by
  rw [Noted.RefersTo, memberType, Noted.references_ofResolving, TypeHandle.references_reduceMember]
  exact handle.memberTypeReferences_subset hint

theorem refersTo_signature {places : List Location} {call : Callable}
    (hresult : ∀ result ∈ call.result, result.declarations ⊆ places)
    (harguments : ∀ argument ∈ call.arguments, argument.declarations ⊆ places) :
    (here.signature call).RefersTo places := by
  rw [Noted.RefersTo, signature, Noted.references_ofResolving, Callable.references_reduceSignature]
  exact Callable.signatureReferences_subset hresult harguments

theorem refersTo_blockArguments {places : List Location} {arguments : List TypeHandle}
    (h : ∀ argument ∈ arguments, argument.declarations ⊆ places ∧ (here.block? argument).RefersTo places) :
    (here.blockArguments arguments).RefersTo places := by
  induction arguments with
  | nil => exact Noted.refersTo_pure []
  | cons argument rest ih =>
    obtain ⟨⟨htype, hblock⟩, hrest⟩ := List.forall_mem_cons.1 h
    rw [blockArguments]
    exact ((here.refersTo_type none argument).mono htype).bind
      (hblock.collect.bind ((ih hrest).bind (Noted.refersTo_pure _)))

/-- A block refers to what its call returns and takes, at any depth.  The induction is on the blocks that a block
takes. -/
theorem refersTo_block? (handle : TypeHandle) : (here.block? handle).RefersTo handle.declarations := by
  induction handle using TypeHandle.induction_on_takes with
  | h handle ih =>
    rw [block?_eq]
    cases hcall : handle.blockCall? with
    | none => exact Noted.refersTo_pure none
    | some call =>
      obtain ⟨hreturned, htaken⟩ := TypeHandle.handles_subset_of_callable? (Option.filter_eq_some_iff.1 hcall).1
      have hresult : ∀ result ∈ call.result, result.declarations ⊆ handle.declarations :=
        fun result h => TypeHandle.declarations_subset (hreturned result h)
      have harguments : ∀ argument ∈ call.arguments, argument.declarations ⊆ handle.declarations :=
        fun argument h => TypeHandle.declarations_subset (htaken argument h)
      refine Noted.RefersTo.map ?_ some
      refine Noted.RefersTo.bind ?_ (Noted.RefersTo.bind ?_ (Noted.RefersTo.bind ?_ (Noted.refersTo_pure _)))
      · cases hreturned : call.result with
        | none => exact Noted.refersTo_pure _
        | some result => exact (here.refersTo_type none result).mono (hresult result hreturned)
      · refine here.refersTo_blockArguments fun argument hargument => ?_
        exact ⟨harguments argument hargument,
          (ih argument ⟨call, hcall, hargument⟩).mono (harguments argument hargument)⟩
      · exact here.refersTo_signature hresult harguments

theorem refersTo_collectBlock? (handle : TypeHandle) : (here.collectBlock? handle).RefersTo handle.declarations :=
  (here.refersTo_block? handle).collect

/-! ## Members, arguments and returned values -/

theorem refersTo_declaredType (hint : Option String) (node : Node) :
    (here.declaredType hint node.type).RefersTo node.locations := by
  cases htype : node.type with
  | none => exact Noted.refersTo_pure _
  | some handle =>
    have hplaces := Node.declarations_subset_of_type htype
    exact ((here.refersTo_type hint handle).mono hplaces).bind
      (((here.refersTo_collectBlock? handle).mono hplaces).bind (Noted.refersTo_pure _))

theorem refersTo_returned {places : List Location} (hint : Option String) {handle : TypeHandle}
    (h : handle.declarations ⊆ places) : (here.returned hint handle).RefersTo places :=
  ((here.refersTo_type hint handle).mono h).bind
    (((here.refersTo_collectBlock? handle).mono h).bind (Noted.refersTo_pure _))

theorem refersTo_argument (hint : Option String) (node : Node) : (here.argument hint node).RefersTo node.locations :=
  (here.refersTo_declaredType hint node).bind (Noted.refersTo_pure _)

theorem refersTo_arguments (hints : List String) (node : Node) :
    (here.arguments hints node).RefersTo node.locations := by
  refine Noted.refersTo_mapM fun pair hpair => ?_
  have hparameter : pair.1 ∈ node.childrenOf .parameter := List.fst_mem_of_mem_zipIdx hpair
  exact (here.refersTo_argument hints[pair.2]? pair.1).mono (Node.locations_subset_of_childrenOf hparameter)

theorem refersTo_method (owner : String) (node : Node) : (here.method owner node).RefersTo node.locations := by
  have harguments (hints : List String) := here.refersTo_arguments hints node
  unfold method
  dsimp only
  split
  case h_1 handle hint hresult =>
    exact (here.refersTo_returned _ (Node.declarations_subset_of_resultType hresult)).bind
      ((harguments _).bind (Noted.refersTo_pure _))
  case h_2 => exact (Noted.refersTo_pure _).bind ((harguments _).bind (Noted.refersTo_pure _))
  case h_3 => exact (Noted.refersTo_pure _).bind ((harguments _).bind (Noted.refersTo_pure _))

theorem refersTo_property (node : Node) : (here.property node).RefersTo node.locations :=
  (here.refersTo_declaredType node.encoding node).bind (Noted.refersTo_pure _)

theorem refersTo_ivar (node : Node) : (here.ivar node).RefersTo node.locations :=
  (here.refersTo_declaredType node.encoding node).bind (Noted.refersTo_pure _)

/-! ## Declarations with methods -/

theorem refersTo_refer (node : Node) : (Noted.refer node.referenced).RefersTo node.locations := by
  intro location hlocation
  exact Node.mem_locations_of_referenced (Option.mem_toList.1 hlocation)

theorem refersTo_withChild (entry : ClassEntry) (child : Node) :
    (here.withChild entry child).RefersTo child.locations := by
  have hmember {noted : Noted ClassEntry} (h : noted.RefersTo child.locations) :
      (if child.isAvailable here.settings.minVersion = true then noted else pure entry).RefersTo child.locations := by
    split
    · exact h
    · exact Noted.refersTo_pure entry
  unfold withChild
  cases child.kind with
  | superclassRef | protocolRef => exact (refersTo_refer child).bind (Noted.refersTo_pure _)
  | instanceMethod | classMethod => exact hmember ((here.refersTo_method _ child).bind (Noted.refersTo_pure _))
  | property => exact hmember ((here.refersTo_property child).bind (Noted.refersTo_pure _))
  | ivar => exact hmember ((here.refersTo_ivar child).bind (Noted.refersTo_pure _))
  | _ => exact hmember (Noted.refersTo_pure entry)

theorem refersTo_withChildren (entry : ClassEntry) (node : Node) :
    (here.withChildren entry node).RefersTo node.locations :=
  Noted.refersTo_foldlM
    (fun child hchild value => (here.refersTo_withChild value child).mono (Node.locations_subset_of_child hchild)) entry

theorem refersTo_enter {places : List Location} (node : Node) : (here.enter node).RefersTo places :=
  List.nil_subset places

theorem refersTo_interface (node : Node) : (here.interface node).RefersTo node.locations :=
  (here.refersTo_enter node).bind (refersTo_withChildren _ _ node)

theorem refersTo_protocol (node : Node) : (here.protocol node).RefersTo node.locations :=
  (here.refersTo_enter node).bind (refersTo_withChildren _ _ node)

theorem refersTo_category? (node : Node) : (here.category? node).RefersTo node.locations := by
  unfold category?
  cases hextended : extendedClass? node with
  | none => exact Noted.refersTo_pure none
  | some extended =>
    have hchild : extended ∈ node.children := List.mem_of_find?_eq_some hextended
    exact ((refersTo_refer extended).mono (Node.locations_subset_of_child hchild)).bind
      ((here.refersTo_enter node).bind ((refersTo_withChildren _ _ node).bind (Noted.refersTo_pure _)))

/-! ## Other declarations -/

theorem refersTo_field (node : Node) : (here.field node).RefersTo node.locations := by
  unfold field
  cases htype : node.type with
  | none => exact (Noted.refersTo_pure _).bind (Noted.refersTo_pure _)
  | some handle =>
    exact ((here.refersTo_memberType node.encoding handle).mono (Node.declarations_subset_of_type htype)).bind
      (Noted.refersTo_pure _)

theorem refersTo_record (kind : RecordKind) (node : Node) : (here.record kind node).RefersTo node.locations :=
  (here.refersTo_enter node).bind ((Noted.refersTo_mapM fun child hchild =>
    (refersTo_field _ child).mono (Node.locations_subset_of_childrenOf hchild)).bind (Noted.refersTo_pure _))

theorem refersTo_integerType (node : Node) : (here.integerType node).RefersTo node.locations := by
  unfold integerType
  cases htype : node.type with
  | none => exact Noted.refersTo_pure _
  | some handle => exact (here.refersTo_type node.encoding handle).mono (Node.declarations_subset_of_type htype)

theorem refersTo_enum (node : Node) : (here.enum node).RefersTo node.locations :=
  (here.refersTo_enter node).bind ((refersTo_integerType _ node).bind (Noted.refersTo_pure _))

theorem refersTo_anonymousConstants (node : Node) : (here.anonymousConstants node).RefersTo node.locations :=
  (here.refersTo_integerType node).bind (Noted.refersTo_mapM fun constant _ =>
    (here.refersTo_enter constant).bind (Noted.refersTo_pure _))

theorem refersTo_global (node : Node) : (here.global node).RefersTo node.locations :=
  (here.refersTo_enter node).bind ((refersTo_declaredType _ node.encoding node).bind (Noted.refersTo_pure _))

theorem refersTo_function (node : Node) : (here.function node).RefersTo node.locations := by
  unfold function
  refine (here.refersTo_enter node).bind ?_
  dsimp only
  split
  case h_1 handle hresult =>
    refine (refersTo_returned _ none ?_).bind ((refersTo_arguments _ [] node).bind (Noted.refersTo_pure _))
    rcases Option.or_eq_some_iff.1 hresult with hreported | ⟨-, htype⟩
    · exact Node.declarations_subset_of_resultType hreported
    · obtain ⟨proto, hproto, hreturned⟩ := Option.bind_eq_some_iff.1 htype
      obtain ⟨type, htype, rfl⟩ := Option.map_eq_some_iff.1 hproto
      have hpart := List.Subset.trans (TypeHandle.handles_subset_of_result hreturned) type.handles_desugared_subset
      exact List.Subset.trans (TypeHandle.declarations_subset hpart) (Node.declarations_subset_of_type htype)
  case h_2 => exact (Noted.refersTo_pure _).bind ((refersTo_arguments _ [] node).bind (Noted.refersTo_pure _))

theorem refersTo_synonym (node : Node) : (here.synonym node).RefersTo node.locations :=
  (here.refersTo_enter node).bind ((refersTo_declaredType _ node.encoding node).bind (Noted.refersTo_pure _))

theorem refersTo_synonymOfRecord {places : List Location} (entry : RecordEntry) (node : Node) :
    (here.synonymOfRecord entry node).RefersTo places :=
  (here.refersTo_enter node).bind (Noted.refersTo_pure _)

end Surroundings

/-- Whatever a session makes of a declaration refers to places that are written in the declaration. -/
theorem Session.refersTo_account (session : Session) (node : Node) :
    (session.account node).RefersTo node.locations := by
  unfold account
  dsimp only
  cases node.kind with
  | interface =>
    dsimp only
    split
    · exact Noted.refersTo_pure []
    · exact (Surroundings.refersTo_interface _ node).map _
  | protocol =>
    dsimp only
    split
    · exact Noted.refersTo_pure []
    · exact (Surroundings.refersTo_protocol _ node).map _
  | category => exact (Surroundings.refersTo_category? _ node).map _
  | record kind => exact (Surroundings.refersTo_record _ kind node).map _
  | enum =>
    dsimp only
    split
    · exact (Surroundings.refersTo_anonymousConstants _ node).map _
    · exact (Surroundings.refersTo_enum _ node).map _
  | function =>
    dsimp only
    split
    · exact Noted.refersTo_pure []
    · exact (Surroundings.refersTo_function _ node).map _
  | global =>
    dsimp only
    split
    · exact Noted.refersTo_pure []
    · exact (Surroundings.refersTo_global _ node).map _
  | synonym =>
    dsimp only
    split
    · exact Noted.refersTo_pure []
    split
    · exact (Surroundings.refersTo_synonymOfRecord _ _ node).map _
    · exact (Surroundings.refersTo_synonym _ node).map _
  | _ => exact Noted.refersTo_pure []

/-! ## References that are never lost -/

namespace Node

/-- Whether a declaration with methods gets an entry when it is described: it has a name, or says which class it
belongs to. -/
def isBuiltClass (node : Node) : Bool :=
  match node.kind with
  | .interface | .protocol => !node.name.isEmpty
  | .category => (Surroundings.extendedClass? node).isSome
  | _ => false

/-- The references to superclasses and protocols among the children of a declaration, and to the class that a category
belongs to. -/
def relations (node : Node) : List Node :=
  node.childrenOf .superclassRef ++ node.childrenOf .protocolRef ++
    (if node.kind = .category then (Surroundings.extendedClass? node).toList else [])

end Node

/-- A superclass or protocol among the children is referred to, available or not. -/
theorem Surroundings.mem_references_withChildren (here : Surroundings) {node relation : Node} {location : Location}
    (hrelation : relation ∈ node.childrenOf .superclassRef ∨ relation ∈ node.childrenOf .protocolRef)
    (hreferenced : relation.referenced = some location) (entry : ClassEntry) :
    location ∈ (here.withChildren entry node).references := by
  have hkind : relation.kind = .superclassRef ∨ relation.kind = .protocolRef :=
    hrelation.imp (by simpa using List.of_mem_filter ·) (by simpa using List.of_mem_filter ·)
  have hchild : relation ∈ node.children := hrelation.elim List.mem_of_mem_filter List.mem_of_mem_filter
  refine Noted.mem_references_foldlM hchild (fun value => ?_) entry
  unfold withChild
  rcases hkind with hkind | hkind <;> simp [hkind, Noted.refer, hreferenced]

/-- What a declaration with methods is related to, its description refers to. -/
theorem Session.mem_references_account (session : Session) {node relation : Node} {location : Location}
    (hbuilt : node.isBuiltClass = true) (hrelation : relation ∈ node.relations)
    (hreferenced : relation.referenced = some location) : location ∈ (session.account node).references := by
  have hchildren (here : Surroundings) (entry : ClassEntry)
      (hchild : relation ∈ node.childrenOf .superclassRef ++ node.childrenOf .protocolRef) :=
    here.mem_references_withChildren (List.mem_append.1 hchild) hreferenced entry
  unfold Node.relations at hrelation
  unfold Node.isBuiltClass at hbuilt
  unfold account
  cases hkind : node.kind with
  | interface | protocol =>
    rw [hkind] at hbuilt hrelation
    have hname : node.name.isEmpty = false := by simpa using hbuilt
    have hchild := (List.mem_append.1 hrelation).resolve_right List.not_mem_nil
    simp only [hname, Bool.false_eq_true, if_false, Noted.references_map]
    exact List.mem_append_right _ (hchildren _ _ hchild)
  | category =>
    rw [hkind] at hbuilt hrelation
    obtain ⟨extended, hextended⟩ := Option.isSome_iff_exists.1 hbuilt
    simp only [Noted.references_map]
    unfold Surroundings.category?
    rw [hextended]
    rcases List.mem_append.1 hrelation with hchild | hclass
    · refine List.mem_append_right _ (List.mem_append_right _ (List.mem_append_left _ ?_))
      exact hchildren _ _ hchild
    · rw [if_pos rfl, hextended] at hclass
      obtain rfl : relation = extended := by simpa using hclass
      exact List.mem_append_left _ (Option.mem_toList.2 hreferenced)
  | _ => simp [hkind] at hbuilt

end HeaderCatalog
