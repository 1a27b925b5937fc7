import HeaderCatalog.Proofs.Describe.Category
import HeaderCatalog.Proofs.Registry.Extensions
import HeaderCatalog.Proofs.Session.Outlines
import HeaderCatalog.Proofs.Survey.Contributed
import Mathlib.Data.List.Basic

set_option autoImplicit false

/-!
# Extensions

A category is described where it stands, with what is known of named types by then (`Session.descriptions`), and merged
into the extension of its class.  After a run the extension of a class is what all its categories that count come to,
in the order of the tree (`extension_survey`).  Nothing that stands between two of them is in the way, and none of their
members is lost or there twice.
-/

namespace HeaderCatalog

/-- Leaving out what a place excludes, before or after the categories of a class are picked. -/
theorem filterMap_category?_keeps (settings : Settings) (name : String) (entries : List Entry) :
    (entries.filter settings.keeps).filterMap (·.category? name) =
      (entries.filterMap (·.category? name)).filter fun category => settings.keeps (.class_ category) := by
  rw [List.filter_filterMap, List.filterMap_filter]
  congr 1
  funext entry
  cases hentry : entry.category? name with
  | none => simp
  | some category =>
    obtain ⟨rfl, -, -⟩ := Entry.category?_eq_some_iff.1 hentry
    rfl

namespace Session

variable {session : Session} {encounters : List Encounter}

/-! ## One declaration -/

/-- A declaration hands over a category of a class if it is one. -/
theorem categories_submissions (session : Session) (name : String) (node : Node) :
    (session.submissions node).filterMap (·.category? name) =
      if node.isCategoryOf name then [session.settings.extensionOf name ⟨node, session.registry.lookup⟩ []]
      else [] := by
  rw [submissions_eq]
  by_cases hkind : node.kind = .category
  · have hblocks (blocks : List Block) : (blocks.map Entry.block).filterMap (·.category? name) = [] := by
      rw [List.filterMap_map]
      exact List.filterMap_eq_nil_iff.2 fun _ _ => rfl
    rw [Noted.handsOver, List.filterMap_append, hblocks, List.nil_append, Node.isCategoryOf]
    simp only [account, hkind, Noted.value_map, id_eq, decide_true, Bool.true_and]
    cases hextended : node.child? .classRef with
    | none =>
      rw [Surroundings.category?_of_none _ hextended]
      rfl
    | some extended =>
      -- What is looked for is compared with the name of the class, which names the extension.
      rw [Surroundings.value_category? _ hextended]
      by_cases hname : extended.name = name
      · subst hname
        simp [Entry.category?, Settings.extensionOf, surroundings]
      · simp [Entry.category?, Settings.extensionOf, hname]
  · have hnone : node.isCategoryOf name = false := by simp [Node.isCategoryOf, hkind]
    rw [hnone, if_neg Bool.false_ne_true, List.filterMap_eq_nil_iff]
    intro entry hentry
    refine Option.eq_none_iff_forall_ne_some.2 fun category hcategory => ?_
    obtain ⟨rfl, hextension, -⟩ := Entry.category?_eq_some_iff.1 hcategory
    exact kind_of_mem_account hkind hentry (by simp [Entry.kind, hextension, ClassKind.entryKind])

/-- A declaration that is come upon and not left out hands over a category of a class, and it is kept, if it is one that
is described. -/
theorem categories_handedOver {encounter : Encounter} (name : String)
    (h : encounter.treatment = .describe → session.settings.skips encounter.node = false) :
    ((session.handedOver encounter).filter session.settings.keeps).filterMap (·.category? name) =
      if encounter.treatment = .describe ∧ encounter.node.isCategoryOf name = true then
        [session.settings.extensionOf name ⟨encounter.node, session.registry.lookup⟩ []]
      else [] := by
  unfold handedOver
  by_cases htreatment : encounter.treatment = .describe
  · have hkeeps : session.settings.keeps
        (.class_ (session.settings.extensionOf name ⟨encounter.node, session.registry.lookup⟩ [])) = true := by
      have hexcludes := (Bool.or_eq_false_iff.1 (h htreatment)).2
      simp [Settings.keeps, Settings.extensionOf, Entry.heading, hexcludes]
    rw [if_pos htreatment, filterMap_category?_keeps, categories_submissions]
    by_cases hcategory : encounter.node.isCategoryOf name = true <;> simp [htreatment, hcategory, hkeeps]
  · simp [htreatment]

/-! ## A walk -/

/-- The declarations that a session describes on its way, each with what is known by then. -/
def descriptions (session : Session) : List Encounter → List Description
  | [] => []
  | encounter :: rest =>
    if encounter.treatment = .describe then
      ⟨encounter.node, session.registry.lookup⟩ :: (session.meet encounter).descriptions rest
    else (session.meet encounter).descriptions rest

theorem map_node_descriptions (session : Session) (encounters : List Encounter) :
    (session.descriptions encounters).map (·.node) = Node.described encounters := by
  induction encounters generalizing session with
  | nil => rfl
  | cons encounter rest ih =>
    unfold descriptions
    by_cases htreatment : encounter.treatment = .describe <;> simp [htreatment, ih, Node.described]

/-- The categories of a class that are handed over on the way and kept are those that are described. -/
theorem categories_history (name : String)
    (h : ∀ encounter ∈ encounters, encounter.treatment = .describe → session.settings.skips encounter.node = false) :
    ((session.history encounters).filter session.settings.keeps).filterMap (·.category? name) =
      ((session.descriptions encounters).filter (·.node.isCategoryOf name)).map fun description =>
        session.settings.extensionOf name description [] := by
  induction encounters generalizing session with
  | nil => rfl
  | cons encounter rest ih =>
    obtain ⟨hhere, hrest⟩ := List.forall_mem_cons.1 h
    have hsettings := (session.gains_meet encounter).settings_eq
    have hlater := @ih (session.meet encounter) (by rwa [hsettings])
    rw [hsettings] at hlater
    rw [history, List.filter_append, List.filterMap_append, categories_handedOver name hhere, hlater, descriptions]
    by_cases htreatment : encounter.treatment = .describe
    · by_cases hcategory : encounter.node.isCategoryOf name = true <;> simp [htreatment, hcategory]
    · simp [htreatment]

end Session

/-! ## A run -/

/-- A category of a class becomes an extension under the name of that class. -/
theorem Description.value_category? {description : Description} {name : String}
    (h : description.node.isCategoryOf name = true) (settings : Settings) :
    ((settings.surroundings description).category? description.node).value =
      some (settings.extensionOf name description []) := by
  obtain ⟨-, extended, hextended, rfl⟩ := Node.isCategoryOf_iff.1 h
  rw [Surroundings.value_category? _ hextended]
  rfl

/-- **The extension of a class.**  After a run, it is what the categories of the class that count were merged into, in
the order of the tree, each described with what is known where it stands, and there is one if there is such a category.
`Settings.extension?` says what its parts are. -/
theorem extension_survey (root : Node) (settings : Settings) (name : String) :
    let descriptions := (Session.start settings).descriptions (Node.encountersIn settings root.children)
    let categories := descriptions.filter (·.node.isCategoryOf name)
    let registry := (survey root settings).registry
    let described := categories.filterMap fun category =>
      ((settings.surroundings category).category? category.node).value
    descriptions.map (·.node) = Node.contributedIn settings root.children ∧
      ((registry.entry? .extension name).isSome ↔
        ∃ node ∈ Node.contributedIn settings root.children, node.isCategoryOf name = true) ∧
      registry.entry? .extension name = (ClassEntry.mergeAll described).map .class_ ∧
      registry.entry? .extension name = (settings.extension? name categories).map .class_ := by
  intro descriptions categories registry described
  have hnodes : descriptions.map (·.node) = Node.contributedIn settings root.children :=
    (Session.map_node_descriptions _ _).trans (Node.described_encountersIn settings root.children)
  have hdescribed : described = categories.map fun category => settings.extensionOf name category [] :=
    List.filterMap_eq_map_iff_forall_eq_some.2 fun category hcategory =>
      Description.value_category? (List.mem_filter.1 hcategory).2 settings
  have hmerged : registry.entry? .extension name = (ClassEntry.mergeAll described).map .class_ := by
    have hskips : ∀ encounter ∈ Node.encountersIn settings root.children, encounter.treatment = .describe →
        settings.skips encounter.node = false :=
      fun _ => Node.not_skips_of_mem_encountersIn
    have hkept : ((surveyHistory root settings).filter settings.keeps).filterMap (·.category? name) = described :=
      ((Session.start settings).categories_history name hskips).trans hdescribed.symm
    rw [← hkept, ← Registry.find?_extension_registerAll, ← registry_survey]
    rfl
  have hclosed : ClassEntry.mergeAll described = settings.extension? name categories := by
    rw [hdescribed]
    cases categories with
    | nil => rfl
    | cons first rest => exact congrArg some (Settings.foldl_merge_extensionOf first rest)
  refine ⟨hnodes, ?_, hmerged, hclosed ▸ hmerged⟩
  -- There is an entry exactly if there is a first category.
  have hsome : (registry.entry? .extension name).isSome ↔ categories ≠ [] := by
    rw [hmerged, hclosed]
    cases categories <;> simp [Settings.extension?]
  rw [hsome, ← hnodes]
  simp [categories, List.filter_eq_nil_iff]

end HeaderCatalog
