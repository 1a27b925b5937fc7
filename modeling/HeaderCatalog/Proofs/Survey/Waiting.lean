import HeaderCatalog.Proofs.Session.Submissions
import HeaderCatalog.Proofs.Survey.Contributed

set_option autoImplicit false

/-!
# Records that wait for a name

A struct or union without a name waits in the session for a typedef to name it.  Whatever is come upon next ends the
waiting, with one exception: a typedef that is left out neither takes the record nor makes it be forgotten.  So the
record that a typedef names was the last declaration before it, apart from typedefs that are left out
(`exists_unnamed_before`).
-/

namespace HeaderCatalog

namespace Session

/-! ## What keeps the waiting record -/

section Kept

variable (session : Session)

@[simp] theorem pending_begin (ref : EntryRef) : (session.begin ref).pending = session.pending := rfl

@[simp] theorem pending_finish : session.finish.pending = session.pending := by
  unfold finish
  split <;> rfl

@[simp] theorem pending_register (entry : Entry) : (session.register entry).pending = session.pending := by
  unfold register
  split <;> rfl

@[simp] theorem pending_registerAll {α : Type} (toEntry : α → Entry) (values : List α) :
    (values.foldl (fun session value => session.register (toEntry value)) session).pending = session.pending := by
  rw [registerAll_eq]

@[simp] theorem pending_absorb {α : Type} (noted : Noted α) : (session.absorb noted).pending = session.pending := by
  rw [absorb_eq]

theorem pending_work (ref : EntryRef) (describe : Surroundings → Noted (Option Entry)) :
    (session.work ref describe).pending = session.pending := by
  unfold work
  dsimp only
  rw [pending_finish]
  split <;> simp

theorem pending_workNamed (kind : EntryKind) (node : Node) (describe : Surroundings → Noted Entry) :
    (session.workNamed kind node describe).pending = session.pending := by
  unfold workNamed
  split
  · rfl
  · exact session.pending_work _ _

theorem pending_describeConstants (node : Node) : (session.describeConstants node).pending = session.pending := by
  unfold describeConstants
  dsimp only
  rw [pending_registerAll, pending_absorb]

/-- A record without a name starts to wait. -/
theorem pending_describeRecord (kind : RecordKind) (node : Node) :
    (session.describeRecord kind node).pending =
      if (session.surroundings.record kind node).value.isAnonymous
        then some (session.surroundings.record kind node).value else session.pending := by
  unfold describeRecord
  dsimp only
  rw [pending_finish, surroundings_begin]
  split
  · rfl
  · simp

/-- After a typedef no record waits. -/
theorem pending_describeSynonym (node : Node) : (session.describeSynonym node).pending = none := by
  unfold describeSynonym
  dsimp only
  split
  · rfl
  split
  · simp [dropPending]
  · rw [pending_work]
    rfl

end Kept

/-! ## Where the waiting record comes from -/

/-- A declaration of an unnamed record, as the session describes it. -/
structure Unnamed (session : Session) (declaration : Node) (record : RecordEntry) : Prop where
  kind_eq : declaration.kind = .record record.kind
  isAnonymous : Naming.isAnonymous declaration.name = true
  described : record = (session.surroundings.record record.kind declaration).value

theorem unnamed_of_pending_describe {session : Session} {node : Node} {record : RecordEntry}
    (hwaiting : session.pending = none) (h : (session.describe node).pending = some record) :
    session.Unnamed node record := by
  cases hkind : node.kind with
  | record kind =>
    simp only [describe, hkind] at h
    rw [pending_describeRecord, hwaiting] at h
    split at h
    case isTrue hanonymous =>
      cases h
      exact ⟨hkind, hanonymous, rfl⟩
    case isFalse => cases h
  | synonym =>
    simp only [describe, hkind] at h
    rw [pending_describeSynonym] at h
    cases h
  | interface | protocol | function | global =>
    simp only [describe, hkind] at h
    rw [pending_workNamed, hwaiting] at h
    cases h
  | category =>
    simp only [describe, hkind] at h
    rw [pending_work, hwaiting] at h
    cases h
  | enum =>
    simp only [describe, hkind] at h
    split at h
    · rw [pending_describeConstants, hwaiting] at h
      cases h
    · rw [pending_work, hwaiting] at h
      cases h
  | _ =>
    simp only [describe, hkind] at h
    rw [hwaiting] at h
    cases h

/-- One step: the record that waits after a declaration is the one it declares, unless the declaration is a typedef that
is not described, behind which the record from before goes on waiting. -/
theorem pending_meet {session : Session} {encounter : Encounter} {record : RecordEntry}
    (h : (session.meet encounter).pending = some record) :
    (encounter.treatment = .describe ∧ session.Unnamed encounter.node record) ∨
      (encounter.treatment ≠ .describe ∧ encounter.node.kind = .synonym ∧ session.pending = some record) := by
  unfold meet at h
  dsimp only at h
  by_cases hkind : encounter.node.kind = .synonym
  · rw [if_pos hkind] at h
    cases htreatment : encounter.treatment with
    | describe =>
      simp only [htreatment, describe, hkind] at h
      rw [pending_describeSynonym] at h
      cases h
    | skip | pass =>
      rw [htreatment] at h
      exact Or.inr ⟨by decide, hkind, h⟩
  · rw [if_neg hkind] at h
    cases htreatment : encounter.treatment with
    | describe =>
      rw [htreatment] at h
      have hunnamed : session.dropPending.Unnamed encounter.node record := unnamed_of_pending_describe rfl h
      exact Or.inl ⟨rfl, hunnamed.kind_eq, hunnamed.isAnonymous, hunnamed.described⟩
    | skip | pass =>
      rw [htreatment] at h
      cases h

/-- A run: the record that waits was declared, and nothing has been come upon since but typedefs that are not
described.  The induction takes the declarations from the last one backwards. -/
theorem exists_unnamed_of_pending {session : Session} (hstart : session.pending = none) {encounters : List Encounter}
    {record : RecordEntry} (h : (encounters.foldl meet session).pending = some record) :
    ∃ before declaration between, encounters = before ++ ⟨declaration, .describe⟩ :: between ∧
      (before.foldl meet session).Unnamed declaration record ∧
      ∀ encounter ∈ between, encounter.treatment ≠ .describe ∧ encounter.node.kind = .synonym := by
  induction encounters using List.reverseRecOn with
  | nil =>
    rw [List.foldl_nil, hstart] at h
    cases h
  | append_singleton earlier last ih =>
    rw [List.foldl_append] at h
    rcases pending_meet h with ⟨htreatment, hunnamed⟩ | ⟨htreatment, hkind, hpending⟩
    · obtain ⟨declaration, treatment⟩ := last
      obtain rfl : treatment = .describe := htreatment
      exact ⟨earlier, declaration, [], rfl, hunnamed, fun _ h => nomatch h⟩
    · obtain ⟨before, declaration, between, rfl, hunnamed, hbetween⟩ := ih hpending
      refine ⟨before, declaration, between ++ [last], by simp, hunnamed, fun encounter hencounter => ?_⟩
      rcases List.mem_append.1 hencounter with hencounter | hencounter
      · exact hbetween encounter hencounter
      · rw [List.mem_singleton.1 hencounter]
        exact ⟨htreatment, hkind⟩

/-- The record that a typedef hands over is the one that waits, if the typedef may name it. -/
theorem record_mem_handedOver {session : Session} {encounter : Encounter} {record : RecordEntry}
    (hkind : encounter.node.kind = .synonym) : .record record ∈ session.handedOver encounter ↔
      encounter.treatment = .describe ∧ encounter.node.name.isEmpty = false ∧
        ∃ unnamed, session.pending.filter (namesRecord encounter.node ·.kind) = some unnamed ∧
          record = unnamed.rename encounter.node.name := by
  unfold handedOver
  by_cases htreatment : encounter.treatment = .describe
  case neg => simp [htreatment]
  rw [if_pos htreatment]
  simp only [submissions, hkind]
  by_cases hname : encounter.node.name.isEmpty = true
  · simp [hname]
  rw [if_neg hname]
  cases session.pending.filter (namesRecord encounter.node ·.kind) with
  | none => simp [Noted.handsOver]
  | some unnamed => simpa [Noted.handsOver, htreatment] using fun _ => eq_false_of_ne_true hname

end Session

/-- **A typedef names the unnamed record declared last before it**, if it names one at all: between the two, nothing is
come upon but typedefs that are left out.  Where there are none of these, the typedef follows the record directly. -/
theorem exists_unnamed_before {root : Node} {settings : Settings} {earlier later : List Encounter}
    {synonym : Encounter} {record : RecordEntry}
    (hsplit : Node.encountersIn settings root.children = earlier ++ synonym :: later)
    (hkind : synonym.node.kind = .synonym)
    (hrecord : .record record ∈ (earlier.foldl Session.meet (Session.start settings)).handedOver synonym) :
    ∃ before declaration between unnamed,
      earlier = before ++ ⟨declaration, .describe⟩ :: between ∧
      (before.foldl Session.meet (Session.start settings)).Unnamed declaration unnamed ∧
      record = unnamed.rename synonym.node.name ∧
      (∀ encounter ∈ between, encounter.node.kind = .synonym ∧ settings.skips encounter.node = true) ∧
      ((∀ last ∈ earlier.getLast?, last.node.kind = .synonym → settings.skips last.node = false) → between = []) := by
  obtain ⟨-, -, unnamed, hfilter, hname⟩ := (Session.record_mem_handedOver hkind).1 hrecord
  have hpending := (Option.filter_eq_some_iff.1 hfilter).1
  obtain ⟨before, declaration, between, rfl, hunnamed, hbetween⟩ := Session.exists_unnamed_of_pending rfl hpending
  have hleftOut : ∀ encounter ∈ between, encounter.node.kind = .synonym ∧ settings.skips encounter.node = true := by
    intro encounter hencounter
    obtain ⟨htreatment, hsynonym⟩ := hbetween encounter hencounter
    have hmem : encounter ∈ Node.encountersIn settings root.children := by
      rw [hsplit]
      simp [hencounter]
    rw [Node.treatment_of_mem_encountersIn hmem] at htreatment
    refine ⟨hsynonym, ?_⟩
    by_contra hskips
    exact htreatment (by simp [Node.treatment, hskips, hsynonym, NodeKind.isDescribed])
  refine ⟨before, declaration, between, unnamed, rfl, hunnamed, hname, hleftOut, fun hlast => ?_⟩
  by_contra hne
  have hgetLast : (before ++ ⟨declaration, .describe⟩ :: between).getLast? = some (between.getLast hne) := by
    rw [List.getLast?_append, List.getLast?_cons, List.getLast?_eq_some_getLast hne]
    rfl
  obtain ⟨hsynonym, hskips⟩ := hleftOut _ (List.getLast_mem hne)
  have hkept := hlast _ hgetLast hsynonym
  rw [hskips] at hkept
  cases hkept

/-- A struct without a name, and the typedef right behind it. -/
theorem exists_unnamed_before_point :
    let note := "struct (unnamed at a.h:1:9)"
    let number : Node := { kind := .field, name := "x", type := some { kind := .scalar .double } }
    let record : Encounter := ⟨{ kind := .record .struct, name := note, children := [number] }, .describe⟩
    let point : Encounter :=
      ⟨{ kind := .synonym, name := "Point", type := some { kind := .record .struct, spelling := note } }, .describe⟩
    let root : Node := { kind := .unit, children := [record.node, point.node] }
    let waiting := [record].foldl Session.meet (Session.start {})
    Node.encountersIn {} root.children = [record] ++ point :: [] ∧
      ∃ entry, .record entry ∈ waiting.handedOver point ∧
        ∃ before declaration between unnamed,
          [record] = before ++ ⟨declaration, .describe⟩ :: between ∧
          (before.foldl Session.meet (Session.start {})).Unnamed declaration unnamed ∧
          entry = unnamed.rename "Point" ∧
          (∀ encounter ∈ between, encounter.node.kind = .synonym ∧ Settings.skips {} encounter.node = true) ∧
          ((∀ last ∈ [record].getLast?, last.node.kind = .synonym → Settings.skips {} last.node = false) →
            between = []) := by
  intro note number record point root waiting
  have hsplit : Node.encountersIn {} root.children = [record] ++ point :: [] := rfl
  have hpending : waiting.pending.filter (Session.namesRecord point.node ·.kind) =
      some ⟨⟨note, .record .struct, .unresolved, none⟩, [⟨"x", ⟨"double", "double", ['d']⟩⟩], "{?=d}".toList⟩ := by
    decide +kernel
  have hrecord : .record (RecordEntry.rename _ "Point") ∈ waiting.handedOver point :=
    (Session.record_mem_handedOver rfl).2 ⟨rfl, by decide +kernel, _, hpending, rfl⟩
  exact ⟨hsplit, _, hrecord, exists_unnamed_before hsplit rfl hrecord⟩

/-- Two typedefs behind a struct without a name: the first one is left out, and the second one names the struct. -/
theorem unnamed_not_directly_before :
    let note := "struct (unnamed at a.h:1:9)"
    let number : Node := { kind := .field, name := "x", type := some { kind := .scalar .double } }
    let target : TypeHandle := { kind := .record .struct, spelling := note }
    let record : Node := { kind := .record .struct, name := note, children := [number] }
    let withdrawn : Node :=
      { kind := .synonym, name := "Position", type := some target, availability := some { unavailable := true } }
    let point : Node := { kind := .synonym, name := "Point", type := some target }
    let root : Node := { kind := .unit, children := [record, withdrawn, point] }
    Node.encountersIn {} root.children = [⟨record, .describe⟩, ⟨withdrawn, .skip⟩, ⟨point, .describe⟩] ∧
      ((survey root {}).registry.record? .struct "Point").map (·.encoding) =
        some (Encoding.record .struct "Point" (some [['d']])) := by
  intro note number target record withdrawn point root
  exact ⟨rfl, by decide +kernel⟩

end HeaderCatalog
