import HeaderCatalog.Survey
import Mathlib.Tactic.SplitIfs

set_option autoImplicit false

/-!
# The declarations that count

`contributed` goes through a tree and keeps the declarations that become entries, with no session in between.  They are
the ones that a walk comes upon and describes (`described_encounters`).  Whether a declaration that is come upon is
described follows from the settings and the declaration alone (`treatment_of_mem_encounters`).
-/

namespace HeaderCatalog

namespace Node

mutual

/-- The declarations at a node that count.  Wrappers count as what is inside them, wherever they stand.  A node that
does not apply or is left out hides what is inside it, one of a described kind stands for itself, and any other for what
is inside it. -/
def contributed (settings : Settings) (node : Node) : List Node :=
  match node with
  | { kind, name, location, type, resultType, encoding, value, optional, attributes, availability, referenced,
      children } =>
    let node : Node :=
      { kind, name, location, type, resultType, encoding, value, optional, attributes, availability, referenced,
        children }
    if kind.isTransparent then contributedIn settings children
    else if !node.isAvailable settings.minVersion || settings.excludes (settings.classify location) then []
    else if kind.isDescribed then [node]
    else contributedIn settings children

/-- The declarations in a list of nodes that count. -/
def contributedIn (settings : Settings) : List Node → List Node
  | [] => []
  | node :: rest => contributed settings node ++ contributedIn settings rest

end

/-- The declarations among those come upon that are described. -/
def described (encounters : List Encounter) : List Node :=
  (encounters.filter (·.treatment = .describe)).map (·.node)

theorem described_append (first second : List Encounter) :
    described (first ++ second) = described first ++ described second := by
  simp [described]

mutual

/-- A walk describes the declarations that count. -/
theorem described_encounters (settings : Settings) (node : Node) :
    described (node.encounters settings) = node.contributed settings := by
  obtain ⟨kind, name, location, type, resultType, encoding, value, optional, attributes, availability, referenced,
    children⟩ := node
  have hchildren := described_encountersIn settings children
  unfold encounters contributed Settings.skips
  dsimp only
  split_ifs
  · exact hchildren
  · rfl
  · rfl
  · exact hchildren

theorem described_encountersIn (settings : Settings) (nodes : List Node) :
    described (encountersIn settings nodes) = contributedIn settings nodes := by
  match nodes with
  | [] => rfl
  | node :: rest =>
    rw [encountersIn, contributedIn, described_append, described_encounters, described_encountersIn settings rest]

end

/-! ## How a declaration is treated -/

/-- What is done about a declaration, were it come upon. -/
def treatment (settings : Settings) (node : Node) : Treatment :=
  if settings.skips node then .skip else if node.kind.isDescribed then .describe else .pass

mutual

/-- What is done about a declaration follows from the settings and the declaration. -/
theorem treatment_of_mem_encounters {settings : Settings} {node : Node} {encounter : Encounter}
    (h : encounter ∈ node.encounters settings) : encounter.treatment = encounter.node.treatment settings := by
  obtain ⟨kind, name, location, type, resultType, encoding, value, optional, attributes, availability, referenced,
    children⟩ := node
  unfold encounters at h
  dsimp only at h
  split_ifs at h with htransparent hskips hdescribed
  · exact treatment_of_mem_encountersIn h
  · rw [List.mem_singleton.1 h]
    simp [treatment, hskips]
  · rw [List.mem_singleton.1 h]
    simp [treatment, hskips, hdescribed]
  · rcases List.mem_cons.1 h with rfl | h
    · simp [treatment, hskips, hdescribed]
    · exact treatment_of_mem_encountersIn h

theorem treatment_of_mem_encountersIn {settings : Settings} {nodes : List Node} {encounter : Encounter}
    (h : encounter ∈ encountersIn settings nodes) : encounter.treatment = encounter.node.treatment settings := by
  match nodes with
  | [] => cases h
  | node :: rest =>
    rw [encountersIn] at h
    rcases List.mem_append.1 h with h | h
    · exact treatment_of_mem_encounters h
    · exact treatment_of_mem_encountersIn h

end

/-- Nothing that does not apply or is left out is described. -/
theorem not_skips_of_mem_encountersIn {settings : Settings} {nodes : List Node} {encounter : Encounter}
    (h : encounter ∈ encountersIn settings nodes) (hdescribe : encounter.treatment = .describe) :
    settings.skips encounter.node = false := by
  rw [treatment_of_mem_encountersIn h, treatment] at hdescribe
  by_cases hskips : settings.skips encounter.node = true
  · rw [if_pos hskips] at hdescribe
    cases hdescribe
  · exact eq_false_of_ne_true hskips

end Node

end HeaderCatalog
