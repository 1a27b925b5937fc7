import HeaderCatalog.Proofs.Resolution.SelfContained
import HeaderCatalog.Proofs.Survey.References

set_option autoImplicit false

/-!
# Declarations that need no lookup

A declaration whose types are all self-contained is described alike wherever it stands in a tree: whatever has been
registered before it, its entry and its notes are the same.  Descriptions in two surroundings are compared here that
differ at most in what is known (`Surroundings.SameScene`).  A declaration that is entered sets the place itself, so for
a whole declaration the settings alone have to agree (`Session.account_eq_of_isSelfContained`).
-/

namespace HeaderCatalog

/-! ## Self-contained declarations -/

namespace Node

/-- Every type that a node reports, or that is reported inside it, is self-contained. -/
def IsSelfContained (node : Node) : Prop := ∀ part ∈ node.subtree, ∀ handle ∈ part.types, handle.IsSelfContained

instance (node : Node) : Decidable node.IsSelfContained :=
  inferInstanceAs (Decidable (∀ part ∈ node.subtree, ∀ handle ∈ part.types, handle.IsSelfContained))

namespace IsSelfContained

variable {node child : Node} {handle : TypeHandle}

theorem of_type (h : node.IsSelfContained) (htype : node.type = some handle) : handle.IsSelfContained :=
  h node node.mem_subtree handle (by simp [types, htype])

theorem of_resultType (h : node.IsSelfContained) (htype : node.resultType = some handle) : handle.IsSelfContained :=
  h node node.mem_subtree handle (by simp [types, htype])

theorem of_child (h : node.IsSelfContained) (hchild : child ∈ node.children) : child.IsSelfContained :=
  fun part hpart => h part (subtree_subset_of_child hchild hpart)

theorem of_childOf {kind : NodeKind} (h : node.IsSelfContained) (hchild : child ∈ node.childrenOf kind) :
    child.IsSelfContained :=
  h.of_child (List.mem_of_mem_filter hchild)

end IsSelfContained

end Node

/-! ## Equal descriptions -/

namespace Noted

variable {α β : Type}

/-- Descriptions that note the same go on alike if they go on from their values alike. -/
theorem bind_congr {x y : Noted α} {f g : α → Noted β} (hlocated : x.located = y.located)
    (hreferences : x.references = y.references) (hblocks : x.blocks = y.blocks) (h : f x.value = g y.value) :
    x >>= f = y >>= g := by
  refine ext ?_ ?_ ?_ ?_
  · rw [value_bind, value_bind, h]
  · rw [located_bind, located_bind, hlocated, h]
  · rw [references_bind, references_bind, hreferences, h]
  · rw [blocks_bind, blocks_bind, hblocks, h]

theorem mapM_congr {f g : α → Noted β} {xs : List α} (h : ∀ x ∈ xs, f x = g x) : xs.mapM f = xs.mapM g := by
  induction xs with
  | nil => rfl
  | cons x xs ih =>
    rw [List.mapM_cons, List.mapM_cons, h x List.mem_cons_self, ih fun y hy => h y (List.mem_cons_of_mem x hy)]

theorem foldlM_congr {f g : β → α → Noted β} {xs : List α} (h : ∀ x ∈ xs, ∀ value, f value x = g value x)
    (first : β) : xs.foldlM f first = xs.foldlM g first := by
  induction xs generalizing first with
  | nil => rfl
  | cons x xs ih =>
    rw [List.foldlM_cons, List.foldlM_cons, h x List.mem_cons_self first]
    exact congrArg _ (funext fun value => ih (fun y hy => h y (List.mem_cons_of_mem x hy)) value)

/-- A resolver that answers alike and refers to the same makes the same description. -/
theorem ofResolving_congr {first second : Resolving α} (hanswer : first.answer = second.answer)
    (hreferences : first.references = second.references) : ofResolving first = ofResolving second :=
  ext hanswer rfl hreferences rfl

end Noted

namespace Surroundings

/-- Surroundings that differ at most in what is known. -/
structure SameScene (here there : Surroundings) : Prop where
  settings_eq : here.settings = there.settings
  source_eq : here.source = there.source

variable {here there : Surroundings}

/-! ## Types and blocks -/

theorem type_eq_of_isSelfContained {handle : TypeHandle} (h : handle.IsSelfContained) (hint : Option String) :
    here.type hint handle = there.type hint handle :=
  Noted.ofResolving_congr (TypeHandle.resolve_eq_of_isSelfContained h hint)
    ((handle.references_reduce _ hint).trans (handle.references_reduce _ hint).symm)

theorem memberType_eq_of_isSelfContained {handle : TypeHandle} (h : handle.IsSelfContained) (hint : Option String) :
    here.memberType hint handle = there.memberType hint handle :=
  Noted.ofResolving_congr (TypeHandle.resolveMember_eq_of_isSelfContained h hint)
    ((handle.references_reduceMember _ hint).trans (handle.references_reduceMember _ hint).symm)

theorem signature_eq_of_isSelfContained {call : Callable}
    (hresult : ∀ result, call.result = some result → result.IsSelfContained)
    (harguments : ∀ argument ∈ call.arguments, argument.IsSelfContained) :
    here.signature call = there.signature call :=
  Noted.ofResolving_congr (call.signature_eq_of_isSelfContained hresult harguments)
    ((call.references_reduceSignature _).trans (call.references_reduceSignature _).symm)

theorem blockReturn_eq_of_isSelfContained {result : Option TypeHandle}
    (h : ∀ handle, result = some handle → handle.IsSelfContained) :
    here.blockReturn result = there.blockReturn result := by
  cases result with
  | none => rfl
  | some handle => exact type_eq_of_isSelfContained (h handle rfl) none

theorem blockArguments_congr {arguments : List TypeHandle}
    (hcontained : ∀ argument ∈ arguments, argument.IsSelfContained)
    (hblock : ∀ argument ∈ arguments, here.block? argument = there.block? argument) :
    here.blockArguments arguments = there.blockArguments arguments := by
  induction arguments with
  | nil => rfl
  | cons argument rest ih =>
    obtain ⟨hfirst, hrest⟩ := List.forall_mem_cons.1 hcontained
    obtain ⟨hfirstBlock, hrestBlock⟩ := List.forall_mem_cons.1 hblock
    rw [blockArguments, blockArguments, type_eq_of_isSelfContained hfirst none, hfirstBlock, ih hrest hrestBlock]

namespace SameScene

/-- A block is described alike, down to the blocks that it takes. -/
theorem block? (h : here.SameScene there) (handle : TypeHandle) (hcontained : handle.IsSelfContained) :
    here.block? handle = there.block? handle := by
  induction handle using TypeHandle.induction_on_takes with
  | h handle ih =>
    rw [block?_eq, block?_eq]
    cases hcall : handle.blockCall? with
    | none => rfl
    | some call =>
      obtain ⟨hreturned, htaken⟩ := TypeHandle.handles_subset_of_callable? (Option.filter_eq_some_iff.1 hcall).1
      have hresult : ∀ result, call.result = some result → result.IsSelfContained :=
        fun result hmem => hcontained.mono (hreturned result hmem)
      have harguments : ∀ argument ∈ call.arguments, argument.IsSelfContained :=
        fun argument hmem => hcontained.mono (htaken argument hmem)
      have hblocks : ∀ argument ∈ call.arguments, here.block? argument = there.block? argument :=
        fun argument hmem => ih argument ⟨call, hcall, hmem⟩ (harguments argument hmem)
      dsimp only
      rw [blockOfCall, blockOfCall, blockReturn_eq_of_isSelfContained hresult, blockArguments_congr harguments hblocks,
        signature_eq_of_isSelfContained hresult harguments, h.source_eq]

theorem collectBlock? (h : here.SameScene there) {handle : TypeHandle} (hcontained : handle.IsSelfContained) :
    here.collectBlock? handle = there.collectBlock? handle :=
  congrArg Noted.collect (h.block? handle hcontained)

/-! ## Members, arguments and returned values -/

theorem declaredType (h : here.SameScene there) {node : Node} (hcontained : node.IsSelfContained)
    (hint : Option String) : here.declaredType hint node.type = there.declaredType hint node.type := by
  cases htype : node.type with
  | none => rfl
  | some handle =>
    have hhandle := hcontained.of_type htype
    rw [Surroundings.declaredType, Surroundings.declaredType, type_eq_of_isSelfContained hhandle hint,
      h.collectBlock? hhandle]

theorem returned (h : here.SameScene there) {handle : TypeHandle} (hcontained : handle.IsSelfContained)
    (hint : Option String) : here.returned hint handle = there.returned hint handle := by
  rw [Surroundings.returned, Surroundings.returned, type_eq_of_isSelfContained hcontained hint,
    h.collectBlock? hcontained]

theorem argument (h : here.SameScene there) {node : Node} (hcontained : node.IsSelfContained) (hint : Option String) :
    here.argument hint node = there.argument hint node := by
  rw [Surroundings.argument, Surroundings.argument, h.declaredType hcontained]

theorem arguments (h : here.SameScene there) {node : Node} (hcontained : node.IsSelfContained) (hints : List String) :
    here.arguments hints node = there.arguments hints node :=
  Noted.mapM_congr fun pair hpair => by
    have hchild : pair.1 ∈ node.childrenOf .parameter := List.fst_mem_of_mem_zipIdx hpair
    exact h.argument (hcontained.of_childOf hchild) hints[pair.2]?

theorem method (h : here.SameScene there) {node : Node} (hcontained : node.IsSelfContained) (owner : String) :
    here.method owner node = there.method owner node := by
  unfold Surroundings.method
  dsimp only
  rw [h.arguments hcontained]
  split
  case h_1 handle hint hresult => rw [h.returned (hcontained.of_resultType hresult)]
  case h_2 => rfl
  case h_3 => rfl

theorem property (h : here.SameScene there) {node : Node} (hcontained : node.IsSelfContained) :
    here.property node = there.property node := by
  rw [Surroundings.property, Surroundings.property, h.declaredType hcontained]

theorem ivar (h : here.SameScene there) {node : Node} (hcontained : node.IsSelfContained) :
    here.ivar node = there.ivar node := by
  rw [Surroundings.ivar, Surroundings.ivar, h.declaredType hcontained]

/-! ## Declarations with methods -/

theorem withChild (h : here.SameScene there) {child : Node} (hcontained : child.IsSelfContained) (entry : ClassEntry) :
    here.withChild entry child = there.withChild entry child := by
  unfold Surroundings.withChild
  rw [h.settings_eq, h.method hcontained, h.property hcontained, h.ivar hcontained]

theorem withChildren (h : here.SameScene there) {node : Node} (hcontained : node.IsSelfContained)
    (entry : ClassEntry) : here.withChildren entry node = there.withChildren entry node :=
  Noted.foldlM_congr (fun _ hchild => h.withChild (hcontained.of_child hchild)) entry

end SameScene

/-- A declaration is entered alike under the same settings, and what follows happens in the same scene. -/
theorem enter_bind_congr {α : Type} (hsettings : here.settings = there.settings) (node : Node)
    {next : Surroundings → Noted α}
    (h : ∀ {first second : Surroundings}, first.SameScene second → next first = next second) :
    (here.enter node >>= next) = (there.enter node >>= next) := by
  have hplace : here.settings.classify node.location = there.settings.classify node.location := by rw [hsettings]
  exact Noted.bind_congr (congrArg some hplace) rfl rfl (h ⟨hsettings, hplace⟩)

theorem interface_congr (hsettings : here.settings = there.settings) {node : Node}
    (hcontained : node.IsSelfContained) : here.interface node = there.interface node := by
  refine enter_bind_congr hsettings node fun {first second} h => ?_
  rw [heading, heading, h.source_eq]
  exact h.withChildren hcontained _

theorem protocol_congr (hsettings : here.settings = there.settings) {node : Node}
    (hcontained : node.IsSelfContained) : here.protocol node = there.protocol node := by
  refine enter_bind_congr hsettings node fun {first second} h => ?_
  rw [heading, heading, h.source_eq]
  exact h.withChildren hcontained _

theorem category?_congr (hsettings : here.settings = there.settings) {node : Node}
    (hcontained : node.IsSelfContained) : here.category? node = there.category? node := by
  unfold category?
  cases extendedClass? node with
  | none => rfl
  | some extended =>
    refine congrArg (Noted.refer extended.referenced >>= ·) (funext fun _ => ?_)
    refine enter_bind_congr hsettings node fun {first second} h => ?_
    rw [heading, heading, h.source_eq, h.withChildren hcontained]

/-! ## Other declarations -/

theorem field_congr {node : Node} (hcontained : node.IsSelfContained) : here.field node = there.field node := by
  unfold field
  cases htype : node.type with
  | none => rfl
  | some handle =>
    dsimp only
    rw [memberType_eq_of_isSelfContained (hcontained.of_type htype)]

theorem record_congr (hsettings : here.settings = there.settings) {node : Node} (hcontained : node.IsSelfContained)
    (kind : RecordKind) : here.record kind node = there.record kind node := by
  refine enter_bind_congr hsettings node fun {first second} h => ?_
  have hfields : ∀ child ∈ node.childrenOf .field, first.field child = second.field child :=
    fun child hchild => field_congr (hcontained.of_childOf hchild)
  rw [heading, heading, h.source_eq, Noted.mapM_congr hfields]

theorem integerType_congr {node : Node} (hcontained : node.IsSelfContained) :
    here.integerType node = there.integerType node := by
  unfold integerType
  cases htype : node.type with
  | none => rfl
  | some handle => exact type_eq_of_isSelfContained (hcontained.of_type htype) node.encoding

theorem enum_congr (hsettings : here.settings = there.settings) {node : Node} (hcontained : node.IsSelfContained) :
    here.enum node = there.enum node := by
  refine enter_bind_congr hsettings node fun {first second} h => ?_
  have hinteger : first.integerType node = second.integerType node := integerType_congr hcontained
  rw [hinteger, heading, heading, h.source_eq, availableConstants, availableConstants, h.settings_eq]

theorem anonymousConstants_congr (hsettings : here.settings = there.settings) {node : Node}
    (hcontained : node.IsSelfContained) : here.anonymousConstants node = there.anonymousConstants node := by
  have hinteger : here.integerType node = there.integerType node := integerType_congr hcontained
  unfold anonymousConstants
  rw [hinteger, availableConstants, availableConstants, hsettings]
  refine congrArg _ (funext fun type => Noted.mapM_congr fun constant _ => ?_)
  refine enter_bind_congr hsettings constant fun {first second} h => ?_
  rw [heading, heading, h.source_eq]

theorem global_congr (hsettings : here.settings = there.settings) {node : Node} (hcontained : node.IsSelfContained) :
    here.global node = there.global node := by
  refine enter_bind_congr hsettings node fun {first second} h => ?_
  rw [h.declaredType hcontained, heading, heading, h.source_eq]

theorem function_congr (hsettings : here.settings = there.settings) {node : Node}
    (hcontained : node.IsSelfContained) : here.function node = there.function node := by
  refine enter_bind_congr hsettings node fun {first second} h => ?_
  dsimp only
  rw [h.arguments hcontained, heading, heading, h.source_eq]
  split
  case h_1 handle hresult =>
    have hhandle : handle.IsSelfContained := by
      rcases Option.or_eq_some_iff.1 hresult with hreported | ⟨-, htype⟩
      · exact hcontained.of_resultType hreported
      · obtain ⟨proto, hproto, hreturned⟩ := Option.bind_eq_some_iff.1 htype
        obtain ⟨type, htype, rfl⟩ := Option.map_eq_some_iff.1 hproto
        exact (hcontained.of_type htype).mono
          (List.Subset.trans (TypeHandle.handles_subset_of_result hreturned) type.handles_desugared_subset)
    rw [h.returned hhandle]
  case h_2 => rfl

theorem synonym_congr (hsettings : here.settings = there.settings) {node : Node} (hcontained : node.IsSelfContained) :
    here.synonym node = there.synonym node := by
  refine enter_bind_congr hsettings node fun {first second} h => ?_
  rw [h.declaredType hcontained, heading, heading, h.source_eq]

theorem synonymOfRecord_congr (hsettings : here.settings = there.settings) (entry : RecordEntry) (node : Node) :
    here.synonymOfRecord entry node = there.synonymOfRecord entry node := by
  refine enter_bind_congr hsettings node fun {first second} h => ?_
  rw [heading, heading, h.source_eq]

end Surroundings

/-- What a session makes of a self-contained declaration depends on its settings and, for a typedef, on the record that
waits for a name. -/
theorem Session.account_eq_of_isSelfContained {first second : Session} (hsettings : first.settings = second.settings)
    {node : Node} (hcontained : node.IsSelfContained)
    (hpending : node.kind = .synonym → first.pending = second.pending) :
    first.account node = second.account node := by
  have hhere : first.surroundings.settings = second.surroundings.settings := hsettings
  unfold account
  dsimp only
  cases hkind : node.kind with
  | interface =>
    dsimp only
    rw [Surroundings.interface_congr hhere hcontained]
  | protocol =>
    dsimp only
    rw [Surroundings.protocol_congr hhere hcontained]
  | category =>
    dsimp only
    rw [Surroundings.category?_congr hhere hcontained]
  | record kind =>
    dsimp only
    rw [Surroundings.record_congr hhere hcontained kind]
  | enum =>
    dsimp only
    rw [Surroundings.anonymousConstants_congr hhere hcontained, Surroundings.enum_congr hhere hcontained]
  | function =>
    dsimp only
    rw [Surroundings.function_congr hhere hcontained]
  | global =>
    dsimp only
    rw [Surroundings.global_congr hhere hcontained]
  | synonym =>
    dsimp only
    rw [hpending hkind, Surroundings.synonym_congr hhere hcontained]
    split
    · rfl
    split
    · rw [Surroundings.synonymOfRecord_congr hhere]
    · rfl
  | _ => rfl

/-- Unless it is a typedef, a self-contained declaration hands over the same entries wherever it is come upon. -/
theorem Session.handedOver_eq_of_isSelfContained {first second : Session} (hsettings : first.settings = second.settings)
    {node : Node} (hcontained : node.IsSelfContained) (hkind : node.kind ≠ .synonym) (treatment : Treatment) :
    first.handedOver ⟨node, treatment⟩ = second.handedOver ⟨node, treatment⟩ := by
  have haccount : first.account node = second.account node :=
    account_eq_of_isSelfContained hsettings hcontained fun hsynonym => absurd hsynonym hkind
  rw [handedOver, handedOver, submissions_eq, submissions_eq, haccount]

end HeaderCatalog
