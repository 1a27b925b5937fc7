import HeaderCatalog.Proofs.Survey.Collections
import HeaderCatalog.Proofs.Survey.Names

set_option autoImplicit false

/-!
# Entries without a name

A declaration of a class, a protocol, a function, a variable or a typedef has to have a name, and is passed over without
a trace where it has none.  A record without a name is registered only under that of a typedef, and an enumeration
without a name stands for its constants.

Two names come from elsewhere than the declaration itself and are taken as they are: that of the class a category
refers to, and that of a constant of an enumeration without a name.  These are the only ways to an entry without a name
(`unnamed_survey`).
-/

namespace HeaderCatalog

/-- Whether declarations of a kind must have a name. -/
def NodeKind.requiresName : NodeKind → Bool
  | interface | protocol | function | global | synonym => true
  | _ => false

/-- Whether a declaration shows in a collection under an empty name: a category that refers to its class without a name,
and an enumeration without a name if it has a constant without a name. -/
def Node.showsUnnamed (settings : Settings) (kind : EntryKind) (node : Node) : Bool :=
  match kind with
  | .extension => node.kind = .category && (node.child? .classRef).any (·.name.isEmpty)
  | .global =>
    node.kind = .enum && Surroundings.isAnonymousEnum node && (node.constants settings).any (·.name.isEmpty)
  | _ => false

namespace Session

variable {session : Session} {node : Node}

/-- A declaration that has no name where one is required leaves no trace, but that no record waits any longer. -/
theorem meet_of_unnamed (hkind : node.kind.requiresName = true) (hname : node.name = "") :
    session.meet ⟨node, .describe⟩ = session.dropPending := by
  have hempty : node.name.isEmpty = true := by simp [hname]
  unfold meet describe
  cases h : node.kind with
  | interface | protocol | function | global =>
    dsimp only
    rw [if_neg (by decide), workNamed, if_pos hempty]
  | synonym =>
    dsimp only
    rw [if_pos rfl, describeSynonym, if_pos hempty]
  | _ => simp [h, NodeKind.requiresName] at hkind

/-- Every record that is handed over has a name. -/
theorem name_ne_of_record_mem {entry : RecordEntry} (h : .record entry ∈ session.submissions node) :
    entry.heading.name ≠ "" := by
  rcases record_mem_submissions h with ⟨hkind, -⟩ | hkind
  · simp only [submissions, hkind, record_mem_handsOver] at h
    split at h
    case isTrue => cases h
    case isFalse hnamed =>
      rw [List.mem_singleton, Entry.record.injEq] at h
      intro hname
      rw [← h] at hnamed
      exact hnamed (by simp [RecordEntry.isAnonymous, Naming.isAnonymous, hname])
  · have hhanded : .record entry ∈ session.handedOver ⟨node, .describe⟩ := by rwa [handedOver, if_pos rfl]
    obtain ⟨-, hname, unnamed, -, rfl⟩ := (record_mem_handedOver hkind).1 hhanded
    intro hempty
    simp [show node.name = "" from hempty] at hname

end Session

/-! ## Where a name is empty -/

namespace Node

variable {settings : Settings} {node : Node}

theorem name_ne_of_mem_ifNamed {name : String} (h : name ∈ node.ifNamed.map (·.name)) : name ≠ "" := by
  unfold ifNamed at h
  split at h
  case isTrue => cases h
  case isFalse hname =>
    obtain rfl := by simpa using h
    exact fun hempty => hname (by simp [hempty])

/-- A declaration shows in a plain collection under an empty name if it is of the two kinds that may. -/
theorem unnamed_mem_namesIn {kind : EntryKind} (h : kind.isPlain = true) :
    "" ∈ node.namesIn settings kind ↔ node.showsUnnamed settings kind = true := by
  have hnamed (hkinds : kind ∈ namedKinds.map (·.2)) : "" ∉ node.namesIn settings kind := by
    obtain ⟨⟨declared, kind⟩, hpair, rfl⟩ := List.mem_map.1 hkinds
    rw [namesIn_named settings node hpair]
    split
    · exact fun hmem => name_ne_of_mem_ifNamed hmem rfl
    · exact List.not_mem_nil
  cases kind with
  | class_ | protocol | function | synonym => exact iff_of_false (hnamed (by decide)) Bool.false_ne_true
  | enum =>
    refine iff_of_false ?_ Bool.false_ne_true
    rw [namesIn_enum]
    split
    case isTrue hproper =>
      rw [List.mem_singleton]
      intro hempty
      simp [Surroundings.isAnonymousEnum, Naming.isAnonymous, ← hempty] at hproper
    case isFalse => exact List.not_mem_nil
  | extension =>
    rw [namesIn_extension, showsUnnamed]
    cases node.child? .classRef with
    | none => simp
    | some extended =>
      by_cases hkind : node.kind = .category
      · simp [hkind, @eq_comm _ ""]
      · simp [hkind]
  | global =>
    rw [namesIn_global, variableNames, showsUnnamed]
    cases node.kind with
    | global => exact iff_of_false (fun hmem => name_ne_of_mem_ifNamed hmem rfl) (by simp)
    | enum => by_cases hanonymous : Surroundings.isAnonymousEnum node = true <;> simp [hanonymous]
    | _ => simp
  | record _ | block => cases h

end Node

/-- No run registers a record without a name. -/
theorem unnamed_not_mem_records (root : Node) (settings : Settings) (kind : RecordKind) :
    "" ∉ (survey root settings).registry.names (.record kind) := by
  have hrecord : EntryKind.record kind ≠ .block := nofun
  rw [registry_survey, Registry.names_registerAll _ hrecord, List.mem_eraseDups]
  intro hmem
  obtain ⟨entry, hentry, hname⟩ := List.mem_map.1 hmem
  obtain ⟨hkept, hkind⟩ := List.mem_filter.1 hentry
  obtain ⟨earlier, encounter, later, -, hhanded⟩ := Session.mem_history (List.mem_filter.1 hkept).1
  cases entry with
  | record entry =>
    unfold Session.handedOver at hhanded
    split at hhanded
    · exact Session.name_ne_of_record_mem hhanded hname
    · cases hhanded
  | class_ entry =>
    have hentryKind := of_decide_eq_true hkind
    cases hclass : entry.kind <;> simp [Entry.kind, hclass, ClassKind.entryKind] at hentryKind
  | _ => simp [Entry.kind] at hkind

/-- **Entries without a name.**  Blocks apart, a run registers an entry under the empty name exactly if a category that
counts refers to its class without a name, or an enumeration that counts has neither a name itself nor for one of its
constants.  Declarations of the kinds that must have a name are passed over where they have none. -/
theorem unnamed_survey (root : Node) (settings : Settings) :
    (∀ kind : EntryKind, kind ≠ .block →
      ("" ∈ (survey root settings).registry.names kind ↔
        ∃ node ∈ Node.contributedIn settings root.children, node.showsUnnamed settings kind = true)) ∧
    (∀ (session : Session) (node : Node), node.kind.requiresName = true → node.name = "" →
      session.meet ⟨node, .describe⟩ = session.dropPending) := by
  refine ⟨fun kind hblock => ?_, fun _ _ => Session.meet_of_unnamed⟩
  by_cases hplain : kind.isPlain = true
  · rw [names_survey_of_plain root settings hplain, List.mem_eraseDups, List.mem_flatMap]
    simp only [Node.unnamed_mem_namesIn hplain]
  · cases kind with
    | record kind =>
      refine iff_of_false (unnamed_not_mem_records root settings kind) ?_
      rintro ⟨node, -, hshows⟩
      cases hshows
    | block => exact absurd rfl hblock
    | _ => exact absurd rfl hplain

/-- Unnamed declarations of four kinds, one of them a struct that a typedef names, and a category of a named class. -/
theorem unnamed_survey_passed_over :
    let note := "struct (unnamed at a.h:1:9)"
    let number : Node := { kind := .field, name := "x", type := some { kind := .scalar .double } }
    let record : Node := { kind := .record .struct, name := note, children := [number] }
    let named : TypeHandle := { kind := .record .struct, spelling := note }
    let point : Node := { kind := .synonym, name := "Point", type := some named }
    let flag : Node := { kind := .enumConstant, name := "kFlag" }
    let flags : Node := { kind := .enum, children := [flag] }
    let category : Node := { kind := .category, children := [{ kind := .classRef, name := "View" }] }
    let function : Node := { kind := .function }
    let root : Node := { kind := .unit, children := [function, record, point, flags, category] }
    let names := (survey root {}).registry.names
    names (.record .struct) = ["Point"] ∧ names .global = ["kFlag"] ∧ names .extension = ["View"] ∧
      "" ∉ names (.record .struct) ∧ "" ∉ names .global ∧ "" ∉ names .extension ∧
      (Session.start {}).meet ⟨function, .describe⟩ = Session.start {} := by
  intro note number record named point flag flags category function root names
  obtain ⟨hunnamed, hmeet⟩ := unnamed_survey root {}
  have hnone {kind : EntryKind} (hkind : kind ≠ .block)
      (hshows : ∀ node ∈ Node.contributedIn {} root.children, node.showsUnnamed {} kind = false) :
      "" ∉ names kind := by
    rw [hunnamed kind hkind]
    rintro ⟨node, hnode, hshown⟩
    rw [hshows node hnode] at hshown
    cases hshown
  exact ⟨by decide +kernel, by decide +kernel, by decide +kernel, hnone nofun (by decide +kernel),
    hnone nofun (by decide +kernel), hnone nofun (by decide +kernel), hmeet _ function rfl rfl⟩

/-- A category that refers to its class without a name, and an enumeration without a name whose constant has none
either: an extension and a variable are registered under the empty name. -/
theorem unnamed_class_and_constant :
    let extended : Node := { kind := .classRef }
    let category : Node := { kind := .category, name := "Drawing", children := [extended] }
    let constants : Node := { kind := .enum, children := [{ kind := .enumConstant }] }
    let root : Node := { kind := .unit, children := [category, constants] }
    let registry := (survey root {}).registry
    registry.names .extension = [""] ∧ registry.names .global = [""] ∧ registry.size = 2 := by
  intro extended category constants root registry
  exact ⟨by decide +kernel, by decide +kernel, by decide +kernel⟩

end HeaderCatalog
