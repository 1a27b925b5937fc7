import HeaderCatalog.Proofs.Registry.Coherent
import HeaderCatalog.Proofs.Session.Outlines
import HeaderCatalog.Proofs.Survey.Coherent
import HeaderCatalog.Proofs.Survey.LeftOut
import HeaderCatalog.Proofs.Survey.Waiting

set_option autoImplicit false

/-!
# Restricting only removes

Two runs over one tree, one of them under settings that take more away.  What it leaves out may have been known of in
the other run when later types were resolved, so its entries need not be among the entries there.  But whatever it
describes, the other run describes as well (`described_encountersIn_of_tightens`), and of every description the kinds,
the headings, the references and the blocks are certain: there are no fewer of them in the other run
(`exists_covering`).  So no name and no dependency is new.

A record without a name is an exception, as what is left out behind it decides which typedef names it.
-/

namespace HeaderCatalog

namespace Node

/-! ## The nodes of a tree -/

/-- Whether a node declares a record without a name. -/
def isUnnamedRecord (node : Node) : Bool :=
  match node.kind with
  | .record _ => Naming.isAnonymous node.name
  | _ => false

mutual

/-- A node and all that is inside it. -/
def subtree (node : Node) : List Node :=
  match node with
  | { kind, name, location, type, resultType, encoding, value, optional, attributes, availability, referenced,
      children } =>
    { kind, name, location, type, resultType, encoding, value, optional, attributes, availability, referenced,
      children } :: subtrees children

/-- Nodes and all that is inside them. -/
def subtrees : List Node → List Node
  | [] => []
  | node :: rest => subtree node ++ subtrees rest

end

theorem subtree_eq (node : Node) : node.subtree = node :: subtrees node.children := by
  cases node
  unfold subtree
  rfl

theorem mem_subtree (node : Node) : node ∈ node.subtree := by
  rw [subtree_eq]
  exact List.mem_cons_self

theorem subtrees_children_subset (node : Node) : subtrees node.children ⊆ node.subtree := by
  rw [subtree_eq]
  exact List.subset_cons_self _ _

theorem subtrees_append (first second : List Node) :
    subtrees (first ++ second) = subtrees first ++ subtrees second := by
  induction first with
  | nil => rfl
  | cons node rest ih => rw [List.cons_append, subtrees, subtrees, ih, List.append_assoc]

theorem subtrees_eq_flatMap (nodes : List Node) : subtrees nodes = nodes.flatMap subtree := by
  induction nodes with
  | nil => rfl
  | cons node rest ih => rw [subtrees, ih, List.flatMap_cons]

theorem subtree_subset_of_child {node child : Node} (hchild : child ∈ node.children) :
    child.subtree ⊆ node.subtree := by
  intro part hpart
  rw [subtree_eq node, subtrees_eq_flatMap]
  exact List.mem_cons_of_mem _ (List.mem_flatMap.2 ⟨child, hchild, hpart⟩)

/-- What stands at a site is a part of the tree, with all that is inside it. -/
theorem subtree_subset_fill (node : Node) (site : Site) : node.subtree ⊆ subtrees (site.fill [node]) := by
  intro part hpart
  induction site with
  | among before after =>
    rw [Site.fill, subtrees_append, subtrees_append, subtrees]
    simp [hpart]
  | inside before shell site after ih =>
    rw [Site.fill, subtrees_append, subtrees, subtree_eq]
    simp [ih]

variable {settings strict loose : Settings}

/-- What is come upon is a part of the tree, with all that is inside it. -/
theorem subtree_subset_of_mem_encountersIn {nodes : List Node} {encounter : Encounter}
    (h : encounter ∈ encountersIn settings nodes) : encounter.node.subtree ⊆ subtrees nodes := by
  obtain ⟨earlier, later, hsplit⟩ := List.append_of_mem h
  obtain ⟨site, hsite⟩ := exists_site_of_encountersIn hsplit
  rw [hsite.fill_eq]
  exact subtree_subset_fill encounter.node site

theorem mem_subtrees_of_mem_encountersIn {nodes : List Node} {encounter : Encounter}
    (h : encounter ∈ encountersIn settings nodes) : encounter.node ∈ subtrees nodes :=
  subtree_subset_of_mem_encountersIn h (mem_subtree encounter.node)

/-- Settings that take less away look into what stricter ones look into. -/
theorem IsOpen.of_tightens (h : strict.Tightens loose) {node : Node} (hopen : node.IsOpen strict) : node.IsOpen loose :=
  hopen.imp_right fun hpassed => ⟨hpassed.1, h.skips hpassed.2⟩

theorem treatment_eq_describe_iff {node : Node} :
    node.treatment settings = .describe ↔ settings.skips node = false ∧ node.kind.isDescribed = true := by
  unfold treatment
  cases settings.skips node <;> cases node.kind.isDescribed <;> simp

mutual

/-- Settings that take less away describe what stricter ones describe. -/
theorem described_encounters_of_tightens (h : strict.Tightens loose) {node described : Node}
    (hmem : ⟨described, .describe⟩ ∈ node.encounters strict) : ⟨described, .describe⟩ ∈ node.encounters loose := by
  obtain ⟨kind, name, location, type, resultType, encoding, value, optional, attributes, availability, referenced,
    children⟩ := node
  let node : Node :=
    { kind, name, location, type, resultType, encoding, value, optional, attributes, availability, referenced,
      children }
  by_cases hopen : node.IsOpen strict
  · rw [show node.encounters strict = _ from encounters_of_isOpen hopen children] at hmem
    rw [show node.encounters loose = _ from encounters_of_isOpen (hopen.of_tightens h) children]
    rcases List.mem_append.1 hmem with hthreshold | hinside
    · exact List.mem_append_left _ hthreshold
    · exact List.mem_append_right _ (described_encountersIn_of_tightens h hinside)
  · rw [encounters_of_not_isOpen hopen, List.mem_singleton] at hmem
    obtain ⟨rfl, htreatment⟩ := Encounter.mk.inj hmem
    obtain ⟨hskips, hdescribed⟩ := treatment_eq_describe_iff.1 htreatment.symm
    have hclosed : ¬ node.IsOpen loose := by
      rintro (htransparent | ⟨hnot, -⟩)
      · exact hopen (Or.inl htransparent)
      · exact absurd hdescribed (by simp [hnot])
    rw [encounters_of_not_isOpen hclosed, treatment_eq_describe_iff.2 ⟨h.skips hskips, hdescribed⟩]
    exact List.mem_cons_self

theorem described_encountersIn_of_tightens (h : strict.Tightens loose) {nodes : List Node} {described : Node}
    (hmem : ⟨described, .describe⟩ ∈ encountersIn strict nodes) :
    ⟨described, .describe⟩ ∈ encountersIn loose nodes := by
  match nodes with
  | [] => cases hmem
  | node :: rest =>
    rw [encountersIn] at hmem ⊢
    rcases List.mem_append.1 hmem with hmem | hmem
    · exact List.mem_append_left _ (described_encounters_of_tightens h hmem)
    · exact List.mem_append_right _ (described_encountersIn_of_tightens h hmem)

end

end Node

namespace Session

/-! ## Where no record waits -/

theorem settings_foldl_meet (session : Session) (encounters : List Encounter) :
    (encounters.foldl meet session).settings = session.settings :=
  (session.gains_foldl_meet encounters).settings_eq

/-- Where all records have names, none ever waits for one. -/
theorem pending_eq_none {session : Session} (hstart : session.pending = none) {encounters : List Encounter}
    (h : ∀ encounter ∈ encounters, encounter.node.isUnnamedRecord = false) :
    (encounters.foldl meet session).pending = none := by
  cases hpending : (encounters.foldl meet session).pending with
  | none => rfl
  | some record =>
    obtain ⟨before, declaration, between, rfl, hunnamed, -⟩ := exists_unnamed_of_pending hstart hpending
    have hnamed : declaration.isUnnamedRecord = false := h ⟨declaration, .describe⟩ (by simp)
    simp [Node.isUnnamedRecord, hunnamed.kind_eq, hunnamed.isAnonymous] at hnamed

/-! ## Descriptions of two runs -/

/-- An account covers another one: it notes what that one notes, and has entries of all the kinds and headings that the
entries there have. -/
structure Covers (other noted : Noted (List Entry)) : Prop where
  notes : noted.Within (fun _ => True) other
  outlines : noted.value.map (·.outline) ⊆ other.value.map (·.outline)

/-- What an account hands over has its counterpart in what a covering one hands over. -/
theorem Covers.handsOver {other noted : Noted (List Entry)} (h : Covers other noted) {entry : Entry}
    (hentry : entry ∈ noted.handsOver id) :
    ∃ counterpart ∈ other.handsOver id, counterpart.outline = entry.outline := by
  rcases List.mem_append.1 hentry with hblock | hvalue
  · obtain ⟨block, hmet, rfl⟩ := List.mem_map.1 hblock
    obtain ⟨counterpart, hcounterpart, hheading⟩ := List.mem_map.1 (h.notes.headings (List.mem_map_of_mem hmet))
    refine ⟨.block counterpart, List.mem_append_left _ (List.mem_map_of_mem hcounterpart), ?_⟩
    exact congrArg (Prod.mk EntryKind.block) hheading
  · obtain ⟨counterpart, hcounterpart, houtline⟩ := List.mem_map.1 (h.outlines (List.mem_map_of_mem hvalue))
    exact ⟨counterpart, List.mem_append_right _ hcounterpart, houtline⟩

variable {strict loose : Settings}

/-- A declaration is covered where settings take less away, if no record waits in either session. -/
theorem covers_account (h : strict.Tightens loose) {session other : Session} (hsession : session.settings = strict)
    (hother : other.settings = loose) (hwaiting : session.pending = none) (hotherWaiting : other.pending = none)
    (node : Node) : Covers (other.account node) (session.account node) where
  notes := by
    have htightens : session.surroundings.settings.Tightens other.surroundings.settings := by
      change session.settings.Tightens other.settings
      rwa [hsession, hother]
    exact within_account ⟨htightens, fun _ => trivial⟩ (hwaiting.trans hotherWaiting.symm) node
  outlines := by
    rw [outlines_account, outlines_account, hsession, hother, hwaiting, hotherWaiting]
    exact Settings.outlines_subset h none node

/-- Every description of a run over declarations with names is covered by one of the run under settings that take less
away. -/
theorem exists_covering (h : strict.Tightens loose) {nodes : List Node}
    (hnamed : ∀ node ∈ Node.subtrees nodes, node.isUnnamedRecord = false) {noted : Noted (List Entry)}
    (hnoted : noted ∈ (start strict).accounts (Node.encountersIn strict nodes)) :
    ∃ other ∈ (start loose).accounts (Node.encountersIn loose nodes), Covers other noted := by
  have hwaiting {settings : Settings} {earlier later : List Encounter}
      (hsplit : Node.encountersIn settings nodes = earlier ++ later) :
      (earlier.foldl meet (start settings)).pending = none := by
    refine pending_eq_none rfl fun encounter hencounter => hnamed encounter.node ?_
    have hmem : encounter ∈ Node.encountersIn settings nodes := by
      rw [hsplit]
      exact List.mem_append_left _ hencounter
    exact Node.mem_subtrees_of_mem_encountersIn hmem
  obtain ⟨earlier, node, later, hsplit, rfl⟩ := mem_accounts.1 hnoted
  have hdescribed : ⟨node, .describe⟩ ∈ Node.encountersIn loose nodes :=
    Node.described_encountersIn_of_tightens h (by rw [hsplit]; simp)
  obtain ⟨before, behind, hother⟩ := List.append_of_mem hdescribed
  refine ⟨_, mem_accounts.2 ⟨before, node, behind, hother, rfl⟩, ?_⟩
  exact covers_account h (settings_foldl_meet _ _) (settings_foldl_meet _ _) (hwaiting hsplit) (hwaiting hother) node

end Session

/-! ## What a restricted run yields -/

section Restricted

variable {strict loose : Settings} {root : Node}

/-- What stands at a place that is kept is kept where less is taken away. -/
theorem Settings.Tightens.keeps (h : strict.Tightens loose) {entry counterpart : Entry}
    (hplace : counterpart.heading.source = entry.heading.source) (hkept : strict.keeps entry = true) :
    loose.keeps counterpart = true := by
  unfold Settings.keeps at hkept ⊢
  rw [hplace]
  cases hexcludes : loose.excludes entry.heading.source with
  | false => rfl
  | true =>
    rw [h.excludes hexcludes] at hkept
    cases hkept

theorem Settings.Tightens.dependency?_eq (h : strict.Tightens loose) : strict.dependency? = loose.dependency? := by
  funext location
  unfold Settings.dependency?
  rw [h.classify_eq, h.frameworkName_eq]

/-- A key of the stricter run is one of the other run: what it keeps has a counterpart with the same heading, which is
kept there as well and decides on the key. -/
theorem keys_survey_subset (h : strict.Tightens loose)
    (hnamed : ∀ node ∈ Node.subtrees root.children, node.isUnnamedRecord = false) :
    (survey root strict).registry.keys ⊆ (survey root loose).registry.keys := by
  intro key hkey
  rw [registry_survey, Registry.mem_keys_registerAll] at hkey ⊢
  obtain ⟨entry, hentry, rfl⟩ := hkey
  obtain ⟨hhistory, hkept⟩ := List.mem_filter.1 hentry
  have hhanded := hhistory
  rw [surveyHistory, Session.history_eq_flatMap] at hhanded
  obtain ⟨noted, hnoted, hhanded⟩ := List.mem_flatMap.1 hhanded
  obtain ⟨other, hother, hcovers⟩ := Session.exists_covering h hnamed hnoted
  obtain ⟨counterpart, hcounterpart, houtline⟩ := hcovers.handsOver hhanded
  have hheading : counterpart.heading = entry.heading := congrArg Prod.snd houtline
  have hkeptThere : loose.keeps counterpart = true := h.keeps (congrArg Heading.source hheading) hkept
  have hhistoryThere : counterpart ∈ surveyHistory root loose := by
    rw [surveyHistory, Session.history_eq_flatMap]
    exact List.mem_flatMap.2 ⟨other, hother, hcounterpart⟩
  refine ⟨counterpart, List.mem_filter.2 ⟨hhistoryThere, hkeptThere⟩, ?_⟩
  rw [(coherent_of_mem_surveyHistory hhistoryThere).key_eq, (coherent_of_mem_surveyHistory hhistory).key_eq, hheading]

theorem dependencies_survey_subset (h : strict.Tightens loose)
    (hnamed : ∀ node ∈ Node.subtrees root.children, node.isUnnamedRecord = false) :
    (survey root strict).dependencies ⊆ (survey root loose).dependencies := by
  intro framework hframework
  have hnone : framework ∉ (Session.start strict).dependencies := nofun
  rcases Session.mem_dependencies_foldl_meet.1 hframework with hstart | ⟨noted, hnoted, location, hlocation, hdepend⟩
  · exact absurd hstart hnone
  · obtain ⟨other, hother, hcovers⟩ := Session.exists_covering h hnamed hnoted
    have hdependThere : loose.dependency? location = some framework := by
      rw [← h.dependency?_eq]
      exact hdepend
    exact Session.mem_dependencies_foldl_meet.2
      (Or.inr ⟨other, hother, location, hcovers.notes.references hlocation, hdependThere⟩)

/-- **Restricting only removes.**  Where all records have names, a run under settings that take more away lists no name,
no block of a framework and no dependency that the run under the other settings does not list. -/
theorem survey_of_tightens (h : strict.Tightens loose)
    (hnamed : ∀ node ∈ Node.subtrees root.children, node.isUnnamedRecord = false) :
    (∀ kind, (survey root strict).registry.names kind ⊆ (survey root loose).registry.names kind) ∧
    (∀ framework, ((survey root strict).registry.blocksOf framework).map (·.signature) ⊆
      ((survey root loose).registry.blocksOf framework).map (·.signature)) ∧
    (survey root strict).dependencies ⊆ (survey root loose).dependencies := by
  have hkeys := keys_survey_subset h hnamed
  have hkeyed (settings : Settings) : (survey root settings).registry.Keyed := by
    rw [registry_survey]
    exact Registry.keyed_registerAll _
  refine ⟨fun kind name hname => ?_, fun framework signature hsignature => ?_, dependencies_survey_subset h hnamed⟩
  · obtain ⟨key, hkey, hboth⟩ := (coherent_survey root strict).mem_names_iff.1 hname
    exact (coherent_survey root loose).mem_names_iff.2 ⟨key, hkeys hkey, hboth⟩
  · rw [Registry.mem_signatures_iff (hkeyed _)] at hsignature ⊢
    exact hkeys hsignature

/-- A variable of the user, one of the SDK with a type declared elsewhere, and a function that is obsolete at the later
version. -/
theorem survey_of_tightens_own :
    let loose : Settings := { sdkPath := "/SDK", frameworkName := "Drawing" }
    let strict : Settings :=
      { loose with minVersion := "10.0", excludeSystem := true, frameworkFilter := "Drawing" }
    let shape : TypeHandle :=
      { kind := .objcInterface, spelling := "Shape", declaration := some ⟨"/Shapes.framework/Shape.h", 4⟩ }
    let own : Node := { kind := .global, name := "kOwn", location := some ⟨"/src/own.h", 1⟩, type := some shape }
    let system : Node := { kind := .global, name := "kSystem", location := some ⟨"/SDK/usr/a.h", 1⟩ }
    let obsolete : Node :=
      { kind := .function, name := "draw", location := some ⟨"/src/own.h", 2⟩
        availability := some { obsoleted := some "9.5" } }
    let root : Node := { kind := .unit, children := [own, system, obsolete] }
    strict.Tightens loose ∧ (∀ node ∈ Node.subtrees root.children, node.isUnnamedRecord = false) ∧
      (survey root strict).registry.names .global = ["kOwn"] ∧
      (survey root loose).registry.names .global = ["kOwn", "kSystem"] ∧
      (survey root strict).dependencies = ["Shapes"] ∧
      (survey root strict).registry.names .function ⊆ (survey root loose).registry.names .function ∧
      (survey root strict).dependencies ⊆ (survey root loose).dependencies := by
  intro loose strict shape own system obsolete root
  have hversion : Version.Precedes "9.0" "10.0" := ⟨[9, 0], [10, 0], by decide +kernel, by decide +kernel, rfl⟩
  have htightens : strict.Tightens loose := ⟨rfl, rfl, fun _ => rfl, Or.inr rfl, Or.inr hversion⟩
  have hnamed : ∀ node ∈ Node.subtrees root.children, node.isUnnamedRecord = false := by decide +kernel
  obtain ⟨hnames, -, hdependencies⟩ := survey_of_tightens htightens hnamed
  exact ⟨htightens, hnamed, by decide +kernel, by decide +kernel, by decide +kernel, hnames .function, hdependencies⟩

end Restricted

end HeaderCatalog
