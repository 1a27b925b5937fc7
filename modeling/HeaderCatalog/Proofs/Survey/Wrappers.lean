import HeaderCatalog.Survey
import Mathlib.Tactic.SplitIfs

set_option autoImplicit false

/-!
# Declarations in wrappers

A wrapper says how the declarations inside it are linked, or nothing that the front end knows of.  To a survey it is not
there: its declarations count as siblings of those around it, whatever the name, the place and the availability of the
wrapper.  A `Layout` is a list of siblings with some runs of them in wrappers, and `walk_wrapped` compares it with the
list without the wrappers, from any state of the session.  An unnamed record that waits for its name is part of that
state, so a boundary may stand between the record and the typedef.
-/

namespace HeaderCatalog

/-! ## Layouts -/

/-- A declaration among its siblings, or a run of them in a wrapper. -/
inductive Layout where
  /-- A declaration with all that is inside it. -/
  | declaration (node : Node)
  /-- A wrapper around siblings. -/
  | wrapper (shell : Node) (isTransparent : shell.kind.isTransparent = true) (inner : List Layout)
  /-- A declaration without an entry, around siblings of their own. -/
  | passed (shell : Node) (notDescribed : shell.kind.isDescribed = false) (inner : List Layout)

namespace Layout

mutual

/-- The node of a layout as it stands. -/
def wrapped : Layout → Node
  | declaration node => node
  | wrapper shell _ inner => { shell with children := wrappedAll inner }
  | passed shell _ inner => { shell with children := wrappedAll inner }

/-- The nodes of siblings as they stand. -/
def wrappedAll : List Layout → List Node
  | [] => []
  | layout :: rest => wrapped layout :: wrappedAll rest

end

mutual

/-- The nodes of a layout without its wrappers. -/
def flat : Layout → List Node
  | declaration node => [node]
  | wrapper _ _ inner => flatAll inner
  | passed shell _ inner => [{ shell with children := flatAll inner }]

/-- The nodes of siblings without the wrappers around them. -/
def flatAll : List Layout → List Node
  | [] => []
  | layout :: rest => flat layout ++ flatAll rest

end

end Layout

/-! ## What a walk comes upon -/

namespace Node

variable (settings : Settings)

/-- A walk goes through one list of siblings after the other. -/
theorem encountersIn_append (first second : List Node) :
    encountersIn settings (first ++ second) = encountersIn settings first ++ encountersIn settings second := by
  induction first with
  | nil => rfl
  | cons node rest ih => rw [List.cons_append, encountersIn, encountersIn, ih, List.append_assoc]

theorem encountersIn_singleton (node : Node) : encountersIn settings [node] = node.encounters settings := by
  rw [encountersIn, encountersIn, List.append_nil]

/-- A wrapper itself is not come upon. -/
theorem encounters_of_transparent {shell : Node} (h : shell.kind.isTransparent = true) (children : List Node) :
    encounters settings { shell with children } = encountersIn settings children := by
  unfold encounters
  exact if_pos h

/-- A declaration without an entry is come upon before what is inside it, which it may hide. -/
theorem encounters_of_not_described {shell : Node} (htransparent : shell.kind.isTransparent = false)
    (hdescribed : shell.kind.isDescribed = false) (children : List Node) :
    encounters settings { shell with children } =
      if settings.skips shell then [⟨{ shell with children }, .skip⟩]
      else ⟨{ shell with children }, .pass⟩ :: encountersIn settings children := by
  unfold encounters
  simp only [htransparent, hdescribed, Bool.false_eq_true, if_false]
  rfl

end Node

namespace Session

/-- What is inside a declaration that is not described makes no difference where the declaration is met. -/
theorem meet_children (session : Session) (shell : Node) (children others : List Node) (treatment : Treatment)
    (htreatment : treatment ≠ .describe) :
    session.meet ⟨{ shell with children }, treatment⟩ =
      session.meet ⟨{ shell with children := others }, treatment⟩ := by
  unfold meet
  cases treatment with
  | describe => exact absurd rfl htreatment
  | skip | pass => rfl

mutual

/-- A walk over a layout comes to the same as one over its declarations.  The session is general, for the walk to go on
from any state that the siblings before have left. -/
theorem foldl_meet_wrapped (settings : Settings) : ∀ (layout : Layout) (session : Session),
    (layout.wrapped.encounters settings).foldl meet session =
      (Node.encountersIn settings layout.flat).foldl meet session
  | .declaration node, session => by
    rw [Layout.wrapped, Layout.flat, Node.encountersIn_singleton]
  | .wrapper shell isTransparent inner, session => by
    rw [Layout.wrapped, Layout.flat, Node.encounters_of_transparent settings isTransparent]
    exact foldl_meet_wrappedAll settings inner session
  | .passed shell notDescribed inner, session => by
    have hinner := foldl_meet_wrappedAll settings inner
    rw [Layout.wrapped, Layout.flat, Node.encountersIn_singleton]
    by_cases htransparent : shell.kind.isTransparent = true
    · rw [Node.encounters_of_transparent settings htransparent, Node.encounters_of_transparent settings htransparent]
      exact hinner session
    · have hopaque : shell.kind.isTransparent = false := eq_false_of_ne_true htransparent
      rw [Node.encounters_of_not_described settings hopaque notDescribed,
        Node.encounters_of_not_described settings hopaque notDescribed]
      split_ifs
      · exact session.meet_children shell _ _ .skip (by decide)
      · rw [List.foldl_cons, List.foldl_cons, hinner,
          session.meet_children shell _ (Layout.flatAll inner) .pass (by decide)]

theorem foldl_meet_wrappedAll (settings : Settings) : ∀ (layouts : List Layout) (session : Session),
    (Node.encountersIn settings (Layout.wrappedAll layouts)).foldl meet session =
      (Node.encountersIn settings (Layout.flatAll layouts)).foldl meet session
  | [], _ => rfl
  | layout :: rest, session => by
    rw [Layout.wrappedAll, Layout.flatAll, Node.encountersIn, Node.encountersIn_append, List.foldl_append,
      List.foldl_append, foldl_meet_wrapped settings layout session, foldl_meet_wrappedAll settings rest]

end

/-- A session is left by siblings in wrappers as it is left by the siblings alone. -/
theorem walk_wrapped (session : Session) (layouts : List Layout) :
    session.walk (Layout.wrappedAll layouts) = session.walk (Layout.flatAll layouts) :=
  foldl_meet_wrappedAll session.settings layouts session

end Session

/-- **Wrappers leave no trace**: a run over siblings in wrappers ends as a run over the siblings alone, with the same
registry, dependencies and progress. -/
theorem survey_wrapped (root : Node) (settings : Settings) (layouts : List Layout) :
    survey { root with children := Layout.wrappedAll layouts } settings =
      survey { root with children := Layout.flatAll layouts } settings := by
  unfold survey
  rw [Session.walk_wrapped]

/-- A typedef names the unnamed struct at the end of the wrapper before it. -/
example :
    let record : Node :=
      { kind := .record .struct, children := [{ kind := .field, name := "x", type := some { kind := .scalar .int } }] }
    let root : Node :=
      { kind := .unit, children := [{ kind := .linkage, children := [record] }, { kind := .synonym, name := "Point" }] }
    (survey root {}).registry.names (.record .struct) = ["Point"] := by
  decide +kernel

end HeaderCatalog
