import HeaderCatalog.Proofs.Survey.Contributed
import HeaderCatalog.Proofs.Survey.Wrappers

set_option autoImplicit false

/-!
# Declarations that are left out

A `Site` is a place in a tree: among siblings, or among the siblings inside one of them, at any depth.  Filled with no
node it is the tree without what stands there.  A walk gets to a site if it looks into all declarations around it
(`Site.IsReached`), and then it comes upon the same declarations before and behind the site whatever fills it
(`encountersIn_fill`).

A declaration that is left out hides what is inside it, so all that it can do is to end the waiting of an unnamed
record.  Where none waits, the tree without the declaration is surveyed alike (`survey_without`).
-/

namespace HeaderCatalog

/-! ## Sites -/

/-- A place for nodes among siblings, or among the siblings inside one of them. -/
inductive Site where
  /-- Between siblings. -/
  | among (before after : List Node)
  /-- Inside a sibling, in the place of the children it has. -/
  | inside (before : List Node) (shell : Node) (site : Site) (after : List Node)

/-- Whether a walk looks into a declaration. -/
def Node.IsOpen (settings : Settings) (node : Node) : Prop :=
  node.kind.isTransparent = true ∨ node.kind.isDescribed = false ∧ settings.skips node = false

instance (settings : Settings) (node : Node) : Decidable (node.IsOpen settings) :=
  inferInstanceAs (Decidable (_ ∨ _ ∧ _))

/-- What a walk comes upon at a declaration itself when it looks into it: nothing at a wrapper. -/
def Node.threshold (node : Node) : List Encounter := if node.kind.isTransparent then [] else [⟨node, .pass⟩]

namespace Site

/-- The siblings with nodes at the site. -/
def fill (hole : List Node) : Site → List Node
  | among before after => before ++ hole ++ after
  | inside before shell site after => before ++ { shell with children := site.fill hole } :: after

/-- Whether a walk looks into all declarations around the site. -/
def IsReached (settings : Settings) : Site → Prop
  | among _ _ => True
  | inside _ shell site _ => shell.IsOpen settings ∧ site.IsReached settings

instance decidableIsReached (settings : Settings) : ∀ site : Site, Decidable (site.IsReached settings)
  | among _ _ => inferInstanceAs (Decidable True)
  | inside _ shell site _ =>
    have := decidableIsReached settings site
    inferInstanceAs (Decidable (shell.IsOpen settings ∧ site.IsReached settings))

/-- What a walk comes upon before it gets to the site.  The declarations around the site are met with what fills it. -/
def leading (settings : Settings) (hole : List Node) : Site → List Encounter
  | among before _ => Node.encountersIn settings before
  | inside before shell site _ =>
    Node.encountersIn settings before ++ { shell with children := site.fill hole }.threshold ++
      site.leading settings hole

/-- What a walk comes upon behind the site. -/
def trailing (settings : Settings) : Site → List Encounter
  | among _ after => Node.encountersIn settings after
  | inside _ _ site after => site.trailing settings ++ Node.encountersIn settings after

/-- The site with one more sibling in front. -/
def behind (node : Node) : Site → Site
  | among before after => among (node :: before) after
  | inside before shell site after => inside (node :: before) shell site after

end Site

/-! ## What a walk comes upon around a site -/

namespace Node

variable {settings : Settings}

theorem encounters_of_isOpen {shell : Node} (h : shell.IsOpen settings) (children : List Node) :
    encounters settings { shell with children } =
      { shell with children }.threshold ++ encountersIn settings children := by
  unfold threshold
  by_cases htransparent : shell.kind.isTransparent = true
  · rw [if_pos htransparent, encounters_of_transparent settings htransparent, List.nil_append]
  · obtain ⟨hdescribed, hskips⟩ := h.resolve_left htransparent
    rw [if_neg htransparent, encounters_of_not_described settings (eq_false_of_ne_true htransparent) hdescribed, hskips]
    rfl

/-- A declaration that a walk does not look into is all that it comes upon there. -/
theorem encounters_of_not_isOpen {node : Node} (h : ¬ node.IsOpen settings) :
    node.encounters settings = [⟨node, node.treatment settings⟩] := by
  obtain ⟨kind, name, location, type, resultType, encoding, value, optional, attributes, availability, referenced,
    children⟩ := node
  have hplain : ¬ kind.isTransparent = true := fun htransparent => h (Or.inl htransparent)
  unfold encounters treatment
  dsimp only
  rw [if_neg hplain]
  split_ifs with hskips hdescribed
  · rfl
  · rfl
  · exact absurd (Or.inr ⟨eq_false_of_ne_true hdescribed, eq_false_of_ne_true hskips⟩) h

/-- What fills a site is come upon between what stands before it and what stands behind it. -/
theorem encountersIn_fill {site : Site} (h : site.IsReached settings) (hole : List Node) :
    encountersIn settings (site.fill hole) =
      site.leading settings hole ++ encountersIn settings hole ++ site.trailing settings := by
  induction site with
  | among before after => rw [Site.fill, encountersIn_append, encountersIn_append, Site.leading, Site.trailing]
  | inside before shell site after ih =>
    rw [Site.fill, encountersIn_append, encountersIn, encounters_of_isOpen h.1, ih h.2, Site.leading, Site.trailing]
    simp only [List.append_assoc]

/-- A declaration that is left out is come upon alone, without what is inside it. -/
theorem encountersIn_fill_skipped {site : Site} (h : site.IsReached settings) {node : Node}
    (hplain : node.kind.isTransparent = false) (hskips : settings.skips node = true) :
    encountersIn settings (site.fill [node]) =
      site.leading settings [node] ++ ⟨node, .skip⟩ :: site.trailing settings := by
  have hclosed : ¬ node.IsOpen settings := by simp [IsOpen, hplain, hskips]
  have htreatment : node.treatment settings = .skip := if_pos hskips
  rw [encountersIn_fill h, encountersIn_singleton, encounters_of_not_isOpen hclosed, htreatment, List.append_assoc]
  rfl

end Node

namespace Session

/-- What fills a site makes no difference to the session that gets there. -/
theorem foldl_meet_leading (settings : Settings) (site : Site) (hole other : List Node) (session : Session) :
    (site.leading settings hole).foldl meet session = (site.leading settings other).foldl meet session := by
  induction site generalizing session with
  | among before after => rfl
  | inside before shell site after ih =>
    have hthreshold (begun : Session) : ({ shell with children := site.fill hole } : Node).threshold.foldl meet begun =
        ({ shell with children := site.fill other } : Node).threshold.foldl meet begun := by
      unfold Node.threshold
      dsimp only
      split
      · rfl
      · exact begun.meet_children shell _ _ .pass (by decide)
    simp only [Site.leading, List.foldl_append, hthreshold, ih]

/-- Where no record waits, a declaration that is left out leaves the session as it is. -/
theorem meet_skip {session : Session} (h : session.pending = none) (node : Node) :
    session.meet ⟨node, .skip⟩ = session := by
  have hdropped : session.dropPending = session := by
    unfold dropPending
    rw [← h]
  unfold meet
  dsimp only
  rw [hdropped, ite_self]

/-- From any session, a site is walked over as if the declaration at it were not there, if that is left out and no
record waits when the walk gets to it. -/
theorem foldl_meet_fill {session : Session} {settings : Settings} {site : Site} {node : Node}
    (hreached : site.IsReached settings) (hplain : node.kind.isTransparent = false)
    (hskips : settings.skips node = true)
    (hwaiting : ((site.leading settings [node]).foldl meet session).pending = none) :
    (Node.encountersIn settings (site.fill [])).foldl meet session =
      (Node.encountersIn settings (site.fill [node])).foldl meet session := by
  rw [Node.encountersIn_fill_skipped hreached hplain hskips, Node.encountersIn_fill hreached]
  simp only [List.foldl_append, List.foldl_cons, List.foldl_nil, Node.encountersIn, meet_skip hwaiting]
  rw [foldl_meet_leading settings site [] [node]]

end Session

/-! ## Sites of what is come upon -/

namespace Site

variable {settings : Settings}

theorem fill_behind (node : Node) (hole : List Node) (site : Site) :
    (site.behind node).fill hole = node :: site.fill hole := by
  cases site <;> rfl

theorem isReached_behind (node : Node) (site : Site) :
    (site.behind node).IsReached settings ↔ site.IsReached settings := by
  cases site <;> rfl

theorem leading_behind (node : Node) (hole : List Node) (site : Site) :
    (site.behind node).leading settings hole = node.encounters settings ++ site.leading settings hole := by
  cases site with
  | among before after => rfl
  | inside before shell site after => simp [behind, leading, Node.encountersIn]

/-- A site where a walk finds a declaration after it has come upon certain others. -/
structure Finds (settings : Settings) (nodes : List Node) (earlier : List Encounter) (node : Node) (site : Site) :
    Prop where
  fill_eq : nodes = site.fill [node]
  isReached : site.IsReached settings
  leading_eq : site.leading settings [node] = earlier

end Site

/-- A list that is split in front of one of its elements splits the first or the second part of it. -/
theorem append_eq_append_cons {α : Type} {first second earlier later : List α} {value : α}
    (h : first ++ second = earlier ++ value :: later) :
    (∃ rest, first = earlier ++ value :: rest) ∨
      ∃ inner, earlier = first ++ inner ∧ second = inner ++ value :: later := by
  rcases List.append_eq_append_iff.1 h with hsecond | ⟨rest, hfirst, hrest⟩
  · exact Or.inr hsecond
  · rcases List.cons_eq_append_iff.1 hrest with ⟨rfl, hsecond⟩ | ⟨tail, rfl, -⟩
    · exact Or.inr ⟨[], by simpa using hfirst.symm, hsecond⟩
    · exact Or.inl ⟨tail, hfirst⟩

namespace Node

variable {settings : Settings}

mutual

/-- What is come upon at a node is the node itself, or it is found inside it behind the threshold. -/
theorem exists_site_of_encounters {node : Node} {earlier later : List Encounter} {encounter : Encounter}
    (h : node.encounters settings = earlier ++ encounter :: later) :
    (earlier = [] ∧ encounter.node = node) ∨
      node.IsOpen settings ∧ ∃ inner site, earlier = node.threshold ++ inner ∧
        Site.Finds settings node.children inner encounter.node site := by
  obtain ⟨kind, name, location, type, resultType, encoding, value, optional, attributes, availability, referenced,
    children⟩ := node
  let node : Node :=
    { kind, name, location, type, resultType, encoding, value, optional, attributes, availability, referenced,
      children }
  have hself {treatment : Treatment} {rest : List Encounter}
      (hnode : [⟨node, treatment⟩] = earlier ++ encounter :: rest) : earlier = [] ∧ encounter.node = node := by
    rcases List.singleton_eq_append_iff.1 hnode with ⟨hearlier, hencounter⟩ | ⟨-, hnil⟩
    · obtain ⟨rfl, -⟩ := List.cons.inj hencounter
      exact ⟨hearlier, rfl⟩
    · cases hnil
  by_cases hopen : node.IsOpen settings
  · rw [show node.encounters settings = _ from encounters_of_isOpen hopen children] at h
    rcases append_eq_append_cons h with ⟨rest, hthreshold⟩ | ⟨inner, hearlier, hinner⟩
    · unfold threshold at hthreshold
      split at hthreshold
      · simp at hthreshold
      · exact Or.inl (hself hthreshold)
    · obtain ⟨site, hsite⟩ := exists_site_of_encountersIn hinner
      exact Or.inr ⟨hopen, inner, site, hearlier, hsite⟩
  · rw [encounters_of_not_isOpen hopen] at h
    exact Or.inl (hself h)

theorem exists_site_of_encountersIn {nodes : List Node} {earlier later : List Encounter} {encounter : Encounter}
    (h : encountersIn settings nodes = earlier ++ encounter :: later) :
    ∃ site, Site.Finds settings nodes earlier encounter.node site := by
  match nodes with
  | [] => simp [encountersIn] at h
  | node :: rest =>
    rw [encountersIn] at h
    rcases append_eq_append_cons h with ⟨behind, hnode⟩ | ⟨inner, rfl, hrest⟩
    · rcases exists_site_of_encounters hnode with ⟨rfl, hself⟩ | ⟨hopen, inner, site, rfl, hsite⟩
      · exact ⟨.among [] rest, by rw [hself]; rfl, trivial, rfl⟩
      · have hfilled : { node with children := site.fill [encounter.node] } = node := by
          rw [← hsite.fill_eq]
          cases node
          rfl
        refine ⟨.inside [] node site rest, ?_, ⟨hopen, hsite.isReached⟩, ?_⟩
        · rw [Site.fill, hfilled, List.nil_append]
        · rw [Site.leading, hfilled, hsite.leading_eq]
          rfl
    · obtain ⟨site, hsite⟩ := exists_site_of_encountersIn hrest
      refine ⟨site.behind node, ?_, (Site.isReached_behind node site).2 hsite.isReached, ?_⟩
      · rw [Site.fill_behind, ← hsite.fill_eq]
      · rw [Site.leading_behind, hsite.leading_eq]

end

end Node

/-- **What is left out leaves no trace.**  Where a walk gets to a declaration that is left out, it comes upon the
declaration and nothing inside it.  If no unnamed record waits there, the tree without the declaration and all that is
inside it is surveyed alike: the same entries in the same order, dependencies, progress and place.  Every declaration
that a walk comes upon stands at such a site. -/
theorem survey_without (root : Node) (settings : Settings) :
    (∀ (site : Site) (node : Node), root.children = site.fill [node] → site.IsReached settings →
      node.kind.isTransparent = false → settings.skips node = true →
      Node.encountersIn settings root.children =
          site.leading settings [node] ++ ⟨node, .skip⟩ :: site.trailing settings ∧
        (((site.leading settings [node]).foldl Session.meet (Session.start settings)).pending = none →
          survey { root with children := site.fill [] } settings = survey root settings)) ∧
    (∀ earlier encounter later, Node.encountersIn settings root.children = earlier ++ encounter :: later →
      ∃ site, Site.Finds settings root.children earlier encounter.node site) := by
  refine ⟨fun site node hfill hreached hplain hskips => ⟨?_, fun hwaiting => ?_⟩, fun _ _ _ h =>
    Node.exists_site_of_encountersIn h⟩
  · rw [hfill]
    exact Node.encountersIn_fill_skipped hreached hplain hskips
  · unfold survey Session.walk
    rw [hfill]
    exact congrArg Session.dropPending (Session.foldl_meet_fill hreached hplain hskips hwaiting)

/-- A protocol that is withdrawn, inside a wrapper and behind a struct with a name. -/
theorem survey_without_withdrawn :
    let number : TypeHandle := { kind := .scalar .int, spelling := "int" }
    let width : Node := { kind := .field, name := "width", type := some number }
    let size : Node := { kind := .record .struct, name := "Size", children := [width] }
    let length : Node := { kind := .global, name := "kLength", type := some number }
    let base : Node := { kind := .protocolRef, name := "Base", referenced := some ⟨"/Base.framework/Base.h", 1⟩ }
    let withdrawn : Node :=
      { kind := .protocol, name := "Drawing", availability := some { unavailable := true }, children := [base, length] }
    let site : Site := .inside [size] { kind := .linkage } (.among [] [length]) []
    let root : Node := { kind := .unit, children := site.fill [withdrawn] }
    withdrawn.kind.isTransparent = false ∧ Settings.skips {} withdrawn = true ∧ site.IsReached {} ∧
      ((site.leading {} [withdrawn]).foldl Session.meet (Session.start {})).pending = none ∧
      survey { root with children := site.fill [] } {} = survey root {} := by
  intro number width size length base withdrawn site root
  have hskips : Settings.skips {} withdrawn = true := by decide +kernel
  have hreached : site.IsReached {} := by decide
  have hwaiting : ((site.leading {} [withdrawn]).foldl Session.meet (Session.start {})).pending = none := by
    decide +kernel
  have hleft := (survey_without root {}).1 site withdrawn rfl hreached rfl hskips
  exact ⟨rfl, hskips, hreached, hwaiting, hleft.2 hwaiting⟩

end HeaderCatalog
