import HeaderCatalog.Handle.Build
import HeaderCatalog.Proofs.Session.Alike
import HeaderCatalog.Proofs.Survey.SelfContained
import HeaderCatalog.Proofs.Survey.Wrappers

set_option autoImplicit false

/-!
# Declarations that are met again

A header may be come by more than once.  Where no declaration needs to know of another one and no record waits for a
name, the second walk makes the descriptions of the first (`Session.accounts_congr`).  So it hands over the same history
once more, and a history that comes a second time leaves the registry as it is, unless there are categories in it: these
are merged, and the members of one that is met again are there twice.
-/

namespace HeaderCatalog

namespace Session

theorem kind_of_mem_history {session : Session} {encounters : List Encounter}
    (h : ∀ encounter ∈ encounters, encounter.node.kind ≠ .category) {entry : Entry}
    (hentry : entry ∈ session.history encounters) : entry.kind ≠ .extension := by
  rw [history_eq_flatMap] at hentry
  obtain ⟨noted, hnoted, hhanded⟩ := List.mem_flatMap.1 hentry
  obtain ⟨earlier, node, later, rfl, rfl⟩ := mem_accounts.1 hnoted
  exact kind_of_mem_account (h ⟨node, .describe⟩ (by simp)) hhanded

/-! ## The same descriptions -/

variable {first second session : Session} {encounters : List Encounter}

/-- Sessions with the same settings, in which no record waits, make the same descriptions of declarations that need no
lookup, as long as all records have names. -/
theorem accounts_congr (hsettings : first.settings = second.settings) (hfirst : first.pending = none)
    (hsecond : second.pending = none)
    (hnamed : ∀ encounter ∈ encounters, encounter.node.isUnnamedRecord = false)
    (hcontained : ∀ encounter ∈ encounters, encounter.node.IsSelfContained) :
    first.accounts encounters = second.accounts encounters := by
  induction encounters generalizing first second with
  | nil => rfl
  | cons encounter rest ih =>
    obtain ⟨hname, hrestNamed⟩ := List.forall_mem_cons.1 hnamed
    obtain ⟨hhere, hrestContained⟩ := List.forall_mem_cons.1 hcontained
    have hwaiting {session : Session} (hpending : session.pending = none) : (session.meet encounter).pending = none :=
      pending_eq_none hpending (List.forall_mem_singleton.2 hname)
    have hmet : (first.meet encounter).settings = (second.meet encounter).settings := by
      rw [(first.gains_meet encounter).settings_eq, (second.gains_meet encounter).settings_eq, hsettings]
    have hrest := ih hmet (hwaiting hfirst) (hwaiting hsecond) hrestNamed hrestContained
    have haccount : first.account encounter.node = second.account encounter.node :=
      account_eq_of_isSelfContained hsettings hhere fun _ => hfirst.trans hsecond.symm
    rw [accounts, accounts, hrest, haccount]

/-! ## A second walk -/

/-- What is met a second time, straight after the first, changes neither the registry of a run nor its dependencies. -/
theorem meet_again {settings : Settings} (hcategory : ∀ encounter ∈ encounters, encounter.node.kind ≠ .category)
    (hnamed : ∀ encounter ∈ encounters, encounter.node.isUnnamedRecord = false)
    (hcontained : ∀ encounter ∈ encounters, encounter.node.IsSelfContained) :
    let once := encounters.foldl meet (start settings)
    (encounters.foldl meet once).registry = once.registry ∧
      (encounters.foldl meet once).dependencies = once.dependencies := by
  intro once
  have hsettings : once.settings = settings := settings_foldl_meet (start settings) encounters
  have haccounts : once.accounts encounters = (start settings).accounts encounters :=
    accounts_congr hsettings (pending_eq_none rfl hnamed) rfl hnamed hcontained
  refine ⟨?_, ?_⟩
  · have hhistory : once.history encounters = (start settings).history encounters := by
      rw [history_eq_flatMap, history_eq_flatMap, haccounts]
    have hfirst : once.registry =
        Registry.empty.registerAll (((start settings).history encounters).filter settings.keeps) :=
      ((start settings).gains_foldl_meet encounters).registry_eq
    have hmerged : ∀ entry ∈ ((start settings).history encounters).filter settings.keeps, entry.kind ≠ .extension :=
      fun entry hentry => kind_of_mem_history hcategory (List.mem_of_mem_filter hentry)
    rw [(once.gains_foldl_meet encounters).registry_eq, hhistory, hsettings, hfirst, ← Registry.registerAll_append,
      Registry.registerAll_twice hmerged]
  · have hascending : once.dependencies.Pairwise (· < ·) := ascending_foldl_meet List.Pairwise.nil encounters
    refine dependencies_eq (ascending_foldl_meet hascending encounters) hascending fun framework => ?_
    rw [mem_dependencies_foldl_meet, haccounts, hsettings, or_iff_left_iff_imp]
    exact fun hnoted => mem_dependencies_foldl_meet.2 (Or.inr hnoted)

end Session

/-- **Meeting the same headers again changes nothing.**  Where there are no categories, all records have names and all
types are self-contained, a second walk over the declarations of a tree leaves the registry as it is, with its order,
and the dependencies as well.  The same holds of a run over a tree that lists all its declarations twice. -/
theorem survey_repeated {root : Node} {settings : Settings}
    (hcategory : ∀ node ∈ Node.subtrees root.children, node.kind ≠ .category)
    (hnamed : ∀ node ∈ Node.subtrees root.children, node.isUnnamedRecord = false)
    (hcontained : ∀ node ∈ Node.subtrees root.children, ∀ handle ∈ node.types, handle.IsSelfContained) :
    let once := (Session.start settings).walk root.children
    let again := survey { root with children := root.children ++ root.children } settings
    (once.walk root.children).registry = once.registry ∧
      (once.walk root.children).dependencies = once.dependencies ∧
      again.registry = (survey root settings).registry ∧
      again.dependencies = (survey root settings).dependencies := by
  intro once again
  have hsettings : once.settings = settings := Session.settings_foldl_meet _ _
  have hagain : again = (once.walk root.children).dropPending := by
    change ((Node.encountersIn settings (root.children ++ root.children)).foldl Session.meet _).dropPending = _
    rw [Node.encountersIn_append, List.foldl_append, Session.walk, hsettings]
    rfl
  have hmem {encounter : Encounter} (hencounter : encounter ∈ Node.encountersIn settings root.children) :
      encounter.node ∈ Node.subtrees root.children :=
    Node.mem_subtrees_of_mem_encountersIn hencounter
  obtain ⟨hregistry, hdependencies⟩ : (once.walk root.children).registry = once.registry ∧
      (once.walk root.children).dependencies = once.dependencies := by
    rw [Session.walk, hsettings]
    exact Session.meet_again (fun _ hencounter => hcategory _ (hmem hencounter))
      (fun _ hencounter => hnamed _ (hmem hencounter))
      (fun _ hencounter part hpart => hcontained part (Node.subtree_subset_of_mem_encountersIn hencounter hpart))
  refine ⟨hregistry, hdependencies, ?_, ?_⟩
  · rw [hagain]
    exact hregistry
  · rw [hagain]
    exact hdependencies

/-- A class that is declared, defined and declared once more, a struct, a typedef of it, and a function that takes a
block with a pointer to the typedef. -/
theorem survey_repeated_shape :
    let size : TypeHandle := .recordOf .struct "Size" [⟨"width", { kind := .scalar .double }⟩]
    let extent : TypeHandle :=
      { kind := .sugar .synonym, spelling := "Extent", declaration := some ⟨"/Geometry.framework/Extent.h", 4⟩
        canonical := some size }
    let handler : TypeHandle := .block { kind := .scalar .void, spelling := "void" } [.pointerTo extent]
    let width : Node := { kind := .field, name := "width", type := some { kind := .scalar .double } }
    let parent : Node :=
      { kind := .superclassRef, name := "Base", referenced := some ⟨"/Core.framework/Base.h", 2⟩ }
    let forward : Node := { kind := .interface, name := "Shape" }
    let shape : Node := { forward with children := [parent] }
    let record : Node := { kind := .record .struct, name := "Size", children := [width] }
    let synonym : Node := { kind := .synonym, name := "Extent", type := some size }
    let completion : Node := { kind := .parameter, name := "completion", type := some handler }
    let measure : Node := { kind := .function, name := "measure", children := [completion] }
    let root : Node := { kind := .unit, children := [forward, shape, forward, record, synonym, measure] }
    let once := (Session.start {}).walk root.children
    let again := survey { root with children := root.children ++ root.children } {}
    (∀ node ∈ Node.subtrees root.children, node.kind ≠ .category) ∧
      (∀ node ∈ Node.subtrees root.children, node.isUnnamedRecord = false) ∧
      (∀ node ∈ Node.subtrees root.children, ∀ handle ∈ node.types, handle.IsSelfContained) ∧
      once.registry.keys.map (·.name) = ["Shape", "Size", "Extent", "void (^)(Extent *)", "measure"] ∧
      once.dependencies = ["Core", "Geometry"] ∧
      (once.walk root.children).registry = once.registry ∧
      (once.walk root.children).dependencies = once.dependencies ∧
      again.registry = (survey root {}).registry ∧
      again.dependencies = (survey root {}).dependencies := by
  intro size extent handler width parent forward shape record synonym completion measure root once again
  have hcategory : ∀ node ∈ Node.subtrees root.children, node.kind ≠ .category := by decide +kernel
  have hnamed : ∀ node ∈ Node.subtrees root.children, node.isUnnamedRecord = false := by decide +kernel
  have hcontained : ∀ node ∈ Node.subtrees root.children, ∀ handle ∈ node.types, handle.IsSelfContained := by
    decide +kernel
  have hnames : once.registry.keys.map (·.name) = ["Shape", "Size", "Extent", "void (^)(Extent *)", "measure"] := by
    decide +kernel
  have hdependencies : once.dependencies = ["Core", "Geometry"] := by decide +kernel
  exact ⟨hcategory, hnamed, hcontained, hnames, hdependencies, survey_repeated hcategory hnamed hcontained⟩

/-- A category that is met again adds its method again. -/
example :
    let extended : Node := { kind := .classRef, name := "Shape" }
    let draw : Node := { kind := .instanceMethod, name := "draw" }
    let category : Node := { kind := .category, name := "Drawing", children := [extended, draw] }
    let root : Node := { kind := .unit, children := [category, category] }
    ((survey root {}).registry.ofKind .extension).map (fun
      | .class_ entry => entry.methods.map (·.selector)
      | _ => []) = [["draw", "draw"]] := by
  decide +kernel

end HeaderCatalog
