import HeaderCatalog.Proofs.Path
import HeaderCatalog.Proofs.Survey.References

set_option autoImplicit false

/-!
# The dependencies of a run

A run depends on a framework exactly because a declaration refers to a place in it.  So dependencies are never given up
(`dependencies_subset_foldl_meet`), each of them is the framework of a place that the tree tells of
(`exists_location_of_dependency`), and a superclass, a protocol or the class of a category in another framework makes
the run depend on it, no matter what becomes of the entry.
-/

namespace HeaderCatalog

/-- A dependency is a framework that the path of the place names, and not that of the run. -/
theorem Settings.dependency?_eq_some {settings : Settings} {location : Location} {framework : String}
    (h : settings.dependency? location = some framework) :
    framework ≠ "" ∧ framework ≠ settings.frameworkName ∧ Path.framework? location.filename = some framework := by
  unfold dependency? at h
  dsimp only at h
  split at h
  case isTrue => cases h
  case isFalse hother =>
    obtain ⟨hne, hname⟩ : ¬ (settings.classify (some location)).framework = "" ∧
        ¬ (settings.classify (some location)).framework = settings.frameworkName := by
      simpa [String.isEmpty_iff] using hother
    obtain rfl : (settings.classify (some location)).framework = framework := Option.some.inj h
    refine ⟨hne, hname, ?_⟩
    -- Without a bundle in the path, the framework would be empty or that of the run.
    unfold classify at hne hname ⊢
    dsimp only at hne hname ⊢
    split at hne
    case isTrue => exact absurd rfl hne
    case isFalse hfile =>
      rw [if_neg hfile] at hname ⊢
      cases hbundle : Path.framework? location.filename with
      | some framework => rfl
      | none =>
        rw [hbundle] at hne hname
        dsimp only at hne hname
        split at hne
        case isTrue => exact absurd rfl hne
        case isFalse hsystem =>
          rw [if_neg hsystem] at hname
          exact absurd rfl hname

theorem Settings.dependency?_of_classify {settings : Settings} {referenced : Option Location}
    (hne : (settings.classify referenced).framework ≠ "")
    (hname : (settings.classify referenced).framework ≠ settings.frameworkName) :
    ∃ location, referenced = some location ∧
      settings.dependency? location = some (settings.classify referenced).framework := by
  cases referenced with
  | none => exact absurd rfl hne
  | some location => exact ⟨location, rfl, if_neg (by simpa [String.isEmpty_iff] using ⟨hne, hname⟩)⟩

namespace Session

/-- A dependency is not given up along a walk. -/
theorem dependencies_subset_foldl_meet (session : Session) (encounters : List Encounter) :
    session.dependencies ⊆ (encounters.foldl meet session).dependencies :=
  fun _ hdependency => mem_dependencies_foldl_meet.2 (Or.inl hdependency)

end Session

theorem mem_dependencies_survey {root : Node} {settings : Settings} {framework : String} :
    framework ∈ (survey root settings).dependencies ↔
      ∃ noted ∈ (Session.start settings).accounts (Node.encountersIn settings root.children),
        ∃ location ∈ noted.references, settings.dependency? location = some framework :=
  Session.mem_dependencies_foldl_meet.trans (or_iff_right List.not_mem_nil)

/-- What a run depends on is a framework that a place in the tree belongs to. -/
theorem exists_location_of_dependency {root : Node} {settings : Settings} {framework : String}
    (h : framework ∈ (survey root settings).dependencies) :
    ∃ location ∈ root.locations, settings.dependency? location = some framework := by
  obtain ⟨noted, hnoted, location, hreferred, hdependency⟩ := mem_dependencies_survey.1 h
  obtain ⟨earlier, node, later, hsplit, rfl⟩ := Session.mem_accounts.1 hnoted
  refine ⟨location, ?_, hdependency⟩
  have hmem : ⟨node, .describe⟩ ∈ Node.encountersIn settings root.children := by
    rw [hsplit]
    exact List.mem_append_right _ List.mem_cons_self
  have hinside : node.subtree ⊆ root.subtree :=
    List.Subset.trans (Node.subtree_subset_of_mem_encountersIn hmem) (Node.subtrees_children_subset root)
  exact Node.locations_subset hinside (Session.refersTo_account _ node hreferred)

/-- What a declaration with methods is related to makes the run depend on its framework. -/
theorem dependency_of_relation {root node relation : Node} {settings : Settings}
    (hdescribed : ⟨node, .describe⟩ ∈ Node.encountersIn settings root.children) (hbuilt : node.isBuiltClass = true)
    (hrelation : relation ∈ node.relations) {framework : String}
    (hframework : framework = (settings.classify relation.referenced).framework) (hne : framework ≠ "")
    (hname : framework ≠ settings.frameworkName) : framework ∈ (survey root settings).dependencies := by
  subst hframework
  obtain ⟨location, hreferenced, hdependency⟩ := Settings.dependency?_of_classify hne hname
  obtain ⟨earlier, later, hsplit⟩ := List.append_of_mem hdescribed
  refine mem_dependencies_survey.2 ⟨_, Session.mem_accounts.2 ⟨earlier, node, later, hsplit, rfl⟩, location, ?_,
    hdependency⟩
  exact Session.mem_references_account _ hbuilt hrelation hreferenced

/-- **The dependencies of a run.**  They only grow while the run goes along the declarations; each of them is a
framework other than that of the run, named by the path of some place in the tree; and the framework of a superclass, a
protocol or the class of a category is among them whenever it is another one. -/
theorem dependencies_survey (root : Node) (settings : Settings) :
    (∀ earlier middle later, Node.encountersIn settings root.children = earlier ++ middle ++ later →
      (earlier.foldl Session.meet (Session.start settings)).dependencies ⊆
          ((earlier ++ middle).foldl Session.meet (Session.start settings)).dependencies ∧
        ((earlier ++ middle).foldl Session.meet (Session.start settings)).dependencies ⊆
          (survey root settings).dependencies) ∧
    (∀ framework ∈ (survey root settings).dependencies,
      framework ≠ "" ∧ '/' ∉ framework.toList ∧ framework ≠ settings.frameworkName ∧
        ∃ location ∈ root.locations, Path.framework? location.filename = some framework) ∧
    (∀ node, ⟨node, .describe⟩ ∈ Node.encountersIn settings root.children → node.isBuiltClass = true →
      ∀ relation ∈ node.relations, ∀ framework, framework = (settings.classify relation.referenced).framework →
        framework ≠ "" → framework ≠ settings.frameworkName → framework ∈ (survey root settings).dependencies) := by
  refine ⟨fun earlier middle later hsplit => ⟨?_, ?_⟩, fun framework hframework => ?_,
    fun node hdescribed hbuilt relation hrelation framework =>
      dependency_of_relation hdescribed hbuilt hrelation⟩
  · rw [List.foldl_append]
    exact Session.dependencies_subset_foldl_meet _ middle
  · have hend : (survey root settings).dependencies =
        (later.foldl Session.meet ((earlier ++ middle).foldl Session.meet (Session.start settings))).dependencies := by
      rw [← List.foldl_append, ← hsplit]
      rfl
    rw [hend]
    exact Session.dependencies_subset_foldl_meet _ later
  · obtain ⟨location, hlocation, hdependency⟩ := exists_location_of_dependency hframework
    obtain ⟨hne, hname, hbundle⟩ := Settings.dependency?_eq_some hdependency
    exact ⟨hne, (Path.framework?_eq_some hbundle).2, hname, location, hlocation, hbundle⟩

/-- A class with a superclass in another framework, behind a category that says which class it belongs to; the reference
to the superclass is marked as unavailable. -/
theorem dependencies_survey_gauge :
    let parent : Node :=
      { kind := .superclassRef, name := "UIView", availability := some { unavailable := true },
        referenced := some { filename := "/SDK/UIKit.framework/Headers/UIView.h", line := 8 } }
    let extended : Node :=
      { kind := .classRef, name := "Scale",
        referenced := some { filename := "/SDK/Scales.framework/Headers/Scale.h", line := 3 } }
    let category : Node := { kind := .category, name := "Marks", children := [extended] }
    let gauge : Node := { kind := .interface, name := "Gauge", children := [parent] }
    let root : Node := { kind := .unit, children := [category, gauge] }
    let settings : Settings := { frameworkName := "Meters" }
    Node.encountersIn settings root.children = [] ++ [⟨category, .describe⟩] ++ [⟨gauge, .describe⟩] ∧
      parent ∈ gauge.relations ∧ extended ∈ category.relations ∧
      ([⟨category, .describe⟩].foldl Session.meet (Session.start settings)).dependencies ⊆
        (survey root settings).dependencies ∧
      "Scales" ∈ (survey root settings).dependencies ∧ "UIKit" ∈ (survey root settings).dependencies ∧
      ∃ location ∈ root.locations, Path.framework? location.filename = some "UIKit" := by
  intro parent extended category gauge root settings
  have hsplit : Node.encountersIn settings root.children =
      [] ++ [⟨category, .describe⟩] ++ [⟨gauge, .describe⟩] := rfl
  have hparent : parent ∈ gauge.relations := List.mem_cons_self
  have hextended : extended ∈ category.relations := List.mem_cons_self
  obtain ⟨hgrows, hsound, hrelated⟩ := dependencies_survey root settings
  have hscales := hrelated category (by rw [hsplit]; simp) rfl extended hextended "Scales" (by decide +kernel)
    (by decide) (by decide)
  have huikit := hrelated gauge (by rw [hsplit]; simp) rfl parent hparent "UIKit" (by decide +kernel)
    (by decide) (by decide)
  exact ⟨hsplit, hparent, hextended, (hgrows _ _ _ hsplit).2, hscales, huikit, (hsound _ huikit).2.2.2⟩

end HeaderCatalog
