import HeaderCatalog.Proofs.Registry.Order
import HeaderCatalog.Proofs.Session.Account
import HeaderCatalog.Proofs.Survey.Waiting
import Mathlib.Data.List.Sort
import Mathlib.Data.String.Basic

set_option autoImplicit false

/-!
# Sessions that go on alike

What a session makes of the declarations to come follows from its settings, the entries under the keys of its registry,
the record that waits, and the dependencies.  The order of the entries plays no part, and neither does the place of the
declaration that was looked at last: a description goes to a place of its own before it looks around
(`Surroundings.enter_eq`).  So two sessions that are alike in this way stay alike (`Alike.foldl_meet`).

The dependencies are a set, written down in ascending order: two sessions that depend on the same frameworks list them
alike (`dependencies_eq`).
-/

namespace HeaderCatalog

/-! ## Dependencies in order -/

theorem ascending_insertSorted {value : String} {values : List String} (h : values.Pairwise (· < ·)) :
    (insertSorted value values).Pairwise (· < ·) := by
  induction values with
  | nil => exact List.pairwise_singleton _ _
  | cons first rest ih =>
    obtain ⟨hfirst, hrest⟩ := List.pairwise_cons.1 h
    unfold insertSorted
    split
    case isTrue hlt =>
      refine List.pairwise_cons.2 ⟨List.forall_mem_cons.2 ⟨hlt, fun other hother => ?_⟩, h⟩
      exact lt_trans hlt (hfirst other hother)
    split
    case isTrue => exact h
    case isFalse hnlt hne =>
      have hgt : first < value := lt_of_le_of_ne (not_lt.1 hnlt) (Ne.symm hne)
      refine List.pairwise_cons.2 ⟨fun other hother => ?_, ih hrest⟩
      rcases mem_insertSorted.1 hother with rfl | hmem
      · exact hgt
      · exact hfirst other hmem

theorem Settings.ascending_foldl_depend {settings : Settings} (references : List Location) {dependencies : List String}
    (h : dependencies.Pairwise (· < ·)) : (references.foldl settings.depend dependencies).Pairwise (· < ·) := by
  induction references generalizing dependencies with
  | nil => exact h
  | cons location rest ih =>
    refine ih ?_
    unfold depend
    split
    · exact h
    · exact ascending_insertSorted h

namespace Session

theorem ascending_foldl_meet {session : Session} (h : session.dependencies.Pairwise (· < ·))
    (encounters : List Encounter) : (encounters.foldl meet session).dependencies.Pairwise (· < ·) := by
  induction encounters generalizing session with
  | nil => exact h
  | cons encounter rest ih =>
    refine ih ?_
    rw [(session.heeds_meet encounter).dependencies_eq]
    exact Settings.ascending_foldl_depend _ h

/-- Dependencies in order are determined by what is among them. -/
theorem dependencies_eq {session other : Session} (h : session.dependencies.Pairwise (· < ·))
    (hother : other.dependencies.Pairwise (· < ·))
    (hmem : ∀ framework, framework ∈ session.dependencies ↔ framework ∈ other.dependencies) :
    session.dependencies = other.dependencies :=
  List.Pairwise.eq_of_mem_iff h hother hmem

end Session

/-! ## What a description looks at -/

/-- Going to a declaration forgets the place that was looked at before. -/
theorem Surroundings.enter_eq {here there : Surroundings} (hsettings : here.settings = there.settings)
    (hlookup : here.lookup = there.lookup) (node : Node) : here.enter node = there.enter node := by
  obtain ⟨settings, lookup, source⟩ := here
  obtain ⟨_, _, other⟩ := there
  cases hsettings
  cases hlookup
  rfl

namespace Session

/-- The record that waits after a declaration. -/
def waiting (session : Session) (encounter : Encounter) : Option RecordEntry :=
  if encounter.treatment = .describe then
    match encounter.node.kind with
    | .record kind => some (session.surroundings.record kind encounter.node).value |>.filter (·.isAnonymous)
    | _ => none
  else if encounter.node.kind = .synonym then session.pending
  else none

theorem pending_describe {session : Session} (hpending : session.pending = none) (node : Node) :
    (session.describe node).pending = session.waiting ⟨node, .describe⟩ := by
  unfold waiting describe
  rw [if_pos rfl]
  cases node.kind with
  | record kind =>
    dsimp only
    rw [pending_describeRecord, hpending, Option.filter_some]
  | synonym => exact session.pending_describeSynonym node
  | interface | protocol | function | global =>
    dsimp only
    rw [pending_workNamed, hpending]
  | category =>
    dsimp only
    rw [pending_work, hpending]
  | enum =>
    dsimp only
    split
    · rw [pending_describeConstants, hpending]
    · rw [pending_work, hpending]
  | _ => exact hpending

theorem pending_meet_eq (session : Session) (encounter : Encounter) :
    (session.meet encounter).pending = session.waiting encounter := by
  obtain ⟨node, treatment⟩ := encounter
  unfold meet
  dsimp only
  by_cases hkind : node.kind = .synonym
  · rw [if_pos hkind]
    cases treatment with
    | describe =>
      simp only [describe, hkind, pending_describeSynonym]
      simp [waiting, hkind]
    | skip | pass => simp [waiting, hkind]
  · rw [if_neg hkind]
    cases treatment with
    | describe => exact pending_describe rfl node
    | skip | pass => simp [waiting, hkind, dropPending]

/-- What a session makes of a declaration does not depend on the place that was looked at before, and on the registry
only through what it knows. -/
theorem account_congr {session other : Session} (hsettings : session.settings = other.settings)
    (hlookup : session.registry.lookup = other.registry.lookup) (hpending : session.pending = other.pending)
    (node : Node) : session.account node = other.account node := by
  have henter (declaration : Node) :
      session.surroundings.enter declaration = other.surroundings.enter declaration :=
    Surroundings.enter_eq hsettings hlookup declaration
  have hinteger : session.surroundings.integerType node = other.surroundings.integerType node := by
    unfold Surroundings.integerType Surroundings.type
    rw [show session.surroundings.lookup = other.surroundings.lookup from hlookup]
  unfold account
  dsimp only
  cases node.kind with
  | interface => rw [Surroundings.interface, Surroundings.interface, henter]
  | protocol => rw [Surroundings.protocol, Surroundings.protocol, henter]
  | category => rw [Surroundings.category?, Surroundings.category?, henter]
  | record kind =>
    dsimp only
    rw [Surroundings.record, Surroundings.record, henter]
  | enum =>
    rw [Surroundings.anonymousConstants, Surroundings.anonymousConstants, hinteger, Surroundings.availableConstants,
      Surroundings.availableConstants, show session.surroundings.settings = other.surroundings.settings from hsettings,
      Surroundings.enum, Surroundings.enum, henter]
    simp only [henter]
  | function => rw [Surroundings.function, Surroundings.function, henter]
  | global => rw [Surroundings.global, Surroundings.global, henter]
  | synonym =>
    dsimp only
    rw [hpending, Surroundings.synonym, Surroundings.synonym, henter]
    simp only [Surroundings.synonymOfRecord, henter]
  | _ => rfl

/-! ## Alike sessions -/

/-- Sessions that make the same of the declarations to come. -/
structure Alike (session other : Session) : Prop where
  settings_eq : session.settings = other.settings
  pending_eq : session.pending = other.pending
  dependencies_eq : session.dependencies = other.dependencies
  sameEntries : session.registry.SameEntries other.registry

namespace Alike

variable {session other : Session}

theorem account_eq (h : session.Alike other) (node : Node) : session.account node = other.account node :=
  account_congr h.settings_eq h.sameEntries.lookup_eq h.pending_eq node

theorem waiting_eq (h : session.Alike other) (encounter : Encounter) :
    session.waiting encounter = other.waiting encounter := by
  have henter : session.surroundings.enter encounter.node = other.surroundings.enter encounter.node :=
    Surroundings.enter_eq h.settings_eq h.sameEntries.lookup_eq encounter.node
  unfold waiting
  rw [h.pending_eq]
  simp only [Surroundings.record, henter]

/-- One declaration leaves alike sessions alike. -/
theorem meet (h : session.Alike other) (encounter : Encounter) :
    (session.meet encounter).Alike (other.meet encounter) where
  settings_eq := by
    rw [(session.gains_meet encounter).settings_eq, (other.gains_meet encounter).settings_eq, h.settings_eq]
  pending_eq := by rw [pending_meet_eq, pending_meet_eq, h.waiting_eq]
  dependencies_eq := by
    rw [(session.heeds_meet encounter).dependencies_eq, (other.heeds_meet encounter).dependencies_eq,
      h.account_eq, h.settings_eq, h.dependencies_eq]
  sameEntries := by
    have hhanded : session.handedOver encounter = other.handedOver encounter := by
      rw [handedOver, handedOver, submissions_eq, submissions_eq, h.account_eq]
    rw [(session.gains_meet encounter).registry_eq, (other.gains_meet encounter).registry_eq, hhanded, h.settings_eq]
    exact h.sameEntries.registerAll _

theorem foldl_meet (h : session.Alike other) (encounters : List Encounter) :
    (encounters.foldl Session.meet session).Alike (encounters.foldl Session.meet other) := by
  induction encounters generalizing session other with
  | nil => exact h
  | cons encounter rest ih => exact ih (h.meet encounter)

end Alike

end Session

end HeaderCatalog
