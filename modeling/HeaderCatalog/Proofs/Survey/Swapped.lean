import HeaderCatalog.Handle.Build
import HeaderCatalog.Proofs.Session.Alike
import HeaderCatalog.Proofs.Survey.SelfContained

set_option autoImplicit false

/-!
# Declarations in another order

Two declarations that follow one another can be swapped if neither needs to know of anything that is declared elsewhere
(`Node.StandsAlone`) and no key is registered by both.  The session behind them is then the same but for the order of
its entries (`Session.alike_meet_comm`), and as that order plays no part in what follows, so is the session at the end
(`survey_swapped`).
-/

namespace HeaderCatalog

/-- The keys of the entries that a declaration registers where it is come upon. -/
def Settings.registeredKeys (settings : Settings) (node : Node) : List EntryKey :=
  (((Session.start settings).handedOver ⟨node, node.treatment settings⟩).filter settings.keeps).map (·.key)

/-- A declaration that is described by itself, if it is not left out: it names no record and waits for no name, and all
its types are self-contained. -/
structure Node.StandsAlone (node : Node) : Prop where
  isDescribed : node.kind.isDescribed = true
  kind_ne_synonym : node.kind ≠ .synonym
  named : node.isUnnamedRecord = false
  isSelfContained : node.IsSelfContained

namespace Node

theorem StandsAlone.encounters_eq {node : Node} (h : node.StandsAlone) (settings : Settings) :
    node.encounters settings = [⟨node, node.treatment settings⟩] := by
  refine encounters_of_not_isOpen ?_
  rintro (htransparent | ⟨hnot, -⟩)
  · have hdescribed := h.isDescribed
    cases hkind : node.kind <;> simp [hkind, NodeKind.isTransparent, NodeKind.isDescribed] at htransparent hdescribed
  · rw [h.isDescribed] at hnot
    cases hnot

end Node

namespace Session

variable {session : Session} {first second : Node}

/-- Behind a declaration that stands alone, no record waits. -/
theorem waiting_of_standsAlone (h : first.StandsAlone) (treatment : Treatment) :
    session.waiting ⟨first, treatment⟩ = none := by
  unfold waiting
  split
  · dsimp only
    split
    case h_1 kind hkind =>
      have hnamed : (session.surroundings.record kind first).value.isAnonymous = false := by
        have hname := h.named
        rw [Node.isUnnamedRecord, hkind] at hname
        exact hname
      rw [Option.filter_some, if_neg (by simp [hnamed])]
    case h_2 => rfl
  · exact if_neg h.kind_ne_synonym

/-- What a declaration adds to the dependencies, if it stands alone, it adds in every session. -/
theorem mem_dependencies_meet_of_standsAlone (start : Session) (hsettings : session.settings = start.settings)
    (h : first.StandsAlone) {treatment : Treatment} {framework : String} :
    framework ∈ (session.meet ⟨first, treatment⟩).dependencies ↔ framework ∈ session.dependencies ∨
      (treatment = .describe ∧ ∃ location ∈ (start.account first).references,
        start.settings.dependency? location = some framework) := by
  have haccount : session.account first = start.account first :=
    account_eq_of_isSelfContained hsettings h.isSelfContained fun hsynonym => absurd hsynonym h.kind_ne_synonym
  rw [(session.heeds_meet ⟨first, treatment⟩).dependencies_eq, Settings.mem_foldl_depend, hsettings, haccount]
  refine or_congr_right ?_
  split
  case isTrue htreatment => simp only [show treatment = .describe from htreatment, true_and]
  case isFalse htreatment => simp [show ¬ treatment = .describe from htreatment]

/-- What a declaration hands over, if it stands alone, it hands over in every session. -/
theorem handedOver_of_standsAlone {settings : Settings} (hsettings : session.settings = settings)
    (h : first.StandsAlone) (treatment : Treatment) :
    session.handedOver ⟨first, treatment⟩ = (start settings).handedOver ⟨first, treatment⟩ :=
  handedOver_eq_of_isSelfContained hsettings h.isSelfContained h.kind_ne_synonym treatment

/-- Two declarations that stand alone and have no key in common may be met in either order. -/
theorem alike_meet_comm (hascending : session.dependencies.Pairwise (· < ·)) (hfirst : first.StandsAlone)
    (hsecond : second.StandsAlone) (hapart : ∀ key ∈ session.settings.registeredKeys first,
      key ∉ session.settings.registeredKeys second) :
    ((session.meet ⟨first, first.treatment session.settings⟩).meet
        ⟨second, second.treatment session.settings⟩).Alike
      ((session.meet ⟨second, second.treatment session.settings⟩).meet
        ⟨first, first.treatment session.settings⟩) := by
  let one : Encounter := ⟨first, first.treatment session.settings⟩
  let two : Encounter := ⟨second, second.treatment session.settings⟩
  have hone : (session.meet one).settings = session.settings := (session.gains_meet one).settings_eq
  have htwo : (session.meet two).settings = session.settings := (session.gains_meet two).settings_eq
  refine ⟨?_, ?_, ?_, ?_⟩
  · rw [(gains_meet (session.meet one) two).settings_eq, (gains_meet (session.meet two) one).settings_eq, hone, htwo]
  · rw [pending_meet_eq, pending_meet_eq, waiting_of_standsAlone hsecond, waiting_of_standsAlone hfirst]
  · refine dependencies_eq (ascending_foldl_meet hascending [one, two]) (ascending_foldl_meet hascending [two, one])
      fun framework => ?_
    rw [mem_dependencies_meet_of_standsAlone session hone hsecond,
      mem_dependencies_meet_of_standsAlone session htwo hfirst,
      mem_dependencies_meet_of_standsAlone session rfl hfirst,
      mem_dependencies_meet_of_standsAlone session rfl hsecond]
    exact or_right_comm
  · have hfirstHanded {here : Session} (hhere : here.settings = session.settings) :
        here.handedOver one = (start session.settings).handedOver one :=
      handedOver_of_standsAlone hhere hfirst _
    have hsecondHanded {here : Session} (hhere : here.settings = session.settings) :
        here.handedOver two = (start session.settings).handedOver two :=
      handedOver_of_standsAlone hhere hsecond _
    rw [(gains_meet (session.meet one) two).registry_eq, (gains_meet (session.meet two) one).registry_eq, hone, htwo,
      (session.gains_meet one).registry_eq, (session.gains_meet two).registry_eq, hfirstHanded htwo,
      hfirstHanded rfl, hsecondHanded hone, hsecondHanded rfl]
    exact Registry.sameEntries_registerAll_comm _ hapart

end Session

/-- **Declarations in another order.**  Where a walk gets to two declarations that stand alone and register no key in
common, the tree with the two swapped is surveyed alike: the dependencies are the same, and under every key stands the
same entry.  Only the order of the entries may be another. -/
theorem survey_swapped {root first second : Node} {settings : Settings} {site : Site}
    (hfill : root.children = site.fill [first, second]) (hreached : site.IsReached settings)
    (hfirst : first.StandsAlone) (hsecond : second.StandsAlone)
    (hapart : ∀ key ∈ settings.registeredKeys first, key ∉ settings.registeredKeys second) :
    let swapped := survey { root with children := site.fill [second, first] } settings
    (survey root settings).dependencies = swapped.dependencies ∧
      (∀ key, (survey root settings).registry.find? key = swapped.registry.find? key) ∧
      (survey root settings).registry.entries.Perm swapped.registry.entries := by
  intro swapped
  let before := (site.leading settings [first, second]).foldl Session.meet (Session.start settings)
  have hsettings : before.settings = settings := Session.settings_foldl_meet _ _
  have hascending : before.dependencies.Pairwise (· < ·) := Session.ascending_foldl_meet List.Pairwise.nil _
  have hpair (one two : Node) (hone : one.StandsAlone) (htwo : two.StandsAlone) :
      Node.encountersIn settings (site.fill [one, two]) = site.leading settings [one, two] ++
        [⟨one, one.treatment settings⟩, ⟨two, two.treatment settings⟩] ++ site.trailing settings := by
    rw [Node.encountersIn_fill hreached, Node.encountersIn, Node.encountersIn_singleton, hone.encounters_eq,
      htwo.encounters_eq]
    rfl
  have halike : ((Session.start settings).walk root.children).Alike
      ((Session.start settings).walk (site.fill [second, first])) := by
    have hcomm := Session.alike_meet_comm hascending hfirst hsecond (by rwa [hsettings])
    rw [hsettings] at hcomm
    change ((Node.encountersIn settings root.children).foldl Session.meet (Session.start settings)).Alike
      ((Node.encountersIn settings (site.fill [second, first])).foldl Session.meet (Session.start settings))
    rw [hfill, hpair first second hfirst hsecond, hpair second first hsecond hfirst]
    simp only [List.foldl_append, Session.foldl_meet_leading settings site [second, first] [first, second]]
    exact hcomm.foldl_meet _
  exact ⟨halike.dependencies_eq, halike.sameEntries, halike.sameEntries.perm⟩

/-- A struct and a function that takes a block with a pointer to that struct, inside a wrapper; behind them a variable
whose type says no more than the name of the struct. -/
theorem survey_swapped_size :
    let size : TypeHandle := .recordOf .struct "Size" [⟨"width", { kind := .scalar .double }⟩]
    let handler : TypeHandle := .block { kind := .scalar .void, spelling := "void" }
      [{ TypeHandle.pointerTo size with declaration := some ⟨"/Geometry.framework/Size.h", 4⟩ }]
    let width : Node := { kind := .field, name := "width", type := some { kind := .scalar .double } }
    let record : Node := { kind := .record .struct, name := "Size", children := [width] }
    let completion : Node := { kind := .parameter, name := "completion", type := some handler }
    let resize : Node := { kind := .function, name := "resize", children := [completion] }
    let known : Node :=
      { kind := .global, name := "kSize", type := some { kind := .sugar .elaborated, spelling := "struct Size" } }
    let site : Site := .inside [] { kind := .linkage } (.among [] []) [known]
    let root : Node := { kind := .unit, children := site.fill [record, resize] }
    let swapped := survey { root with children := site.fill [resize, record] } {}
    site.IsReached {} ∧ record.StandsAlone ∧ resize.StandsAlone ∧
      (∀ key ∈ Settings.registeredKeys {} record, key ∉ Settings.registeredKeys {} resize) ∧
      (survey root {}).registry.keys ≠ swapped.registry.keys ∧
      (survey root {}).dependencies = swapped.dependencies ∧
      (∀ key, (survey root {}).registry.find? key = swapped.registry.find? key) ∧
      (survey root {}).registry.entries.Perm swapped.registry.entries := by
  intro size handler width record completion resize known site root swapped
  have hreached : site.IsReached {} := by decide
  have hrecord : record.StandsAlone := ⟨rfl, by decide, by decide +kernel, by decide +kernel⟩
  have hresize : resize.StandsAlone := ⟨rfl, by decide, rfl, by decide +kernel⟩
  have hapart : ∀ key ∈ Settings.registeredKeys {} record, key ∉ Settings.registeredKeys {} resize := by decide +kernel
  have hkeys : (survey root {}).registry.keys ≠ swapped.registry.keys := by decide +kernel
  exact ⟨hreached, hrecord, hresize, hapart, hkeys, survey_swapped rfl hreached hrecord hresize hapart⟩

end HeaderCatalog
