import HeaderCatalog.Proofs.Describe.Notes
import HeaderCatalog.Proofs.Session.Submissions

set_option autoImplicit false

/-!
# What a session makes of a declaration

Describing a declaration comes to one description: its value are the entries that are handed over behind the blocks, and
its notes are taken over by the session (`account`).  The entries decide what is registered, by `submissions_eq`.  The
notes decide where the session is afterwards and which frameworks it depends on, by `heeds_meet`.

`accounts` lists the descriptions made along a walk, and `mem_dependencies_foldl_meet` reads the dependencies of a walk
off that list.
-/

namespace HeaderCatalog

/-! ## Dependencies -/

theorem mem_insertSorted {value other : String} {values : List String} :
    other ∈ insertSorted value values ↔ other = value ∨ other ∈ values := by
  induction values with
  | nil => simp [insertSorted]
  | cons first rest ih =>
    unfold insertSorted
    split
    · exact List.mem_cons
    split
    case isTrue heq =>
      subst heq
      simp
    case isFalse =>
      rw [List.mem_cons, ih, List.mem_cons]
      exact or_left_comm

theorem Settings.mem_foldl_depend {settings : Settings} {references : List Location} {dependencies : List String}
    {framework : String} :
    framework ∈ references.foldl settings.depend dependencies ↔
      framework ∈ dependencies ∨ ∃ location ∈ references, settings.dependency? location = some framework := by
  induction references generalizing dependencies with
  | nil => simp
  | cons location rest ih =>
    simp only [List.foldl_cons, ih, List.mem_cons, exists_eq_or_imp]
    rw [← or_assoc]
    refine or_congr_left ?_
    unfold depend
    cases settings.dependency? location with
    | none => simp
    | some other => rw [mem_insertSorted, or_comm, Option.some.injEq, eq_comm]

namespace Session

/-! ## Descriptions -/

/-- What a session makes of a declaration that it describes: the entries handed over behind the blocks, and the
notes. -/
def account (session : Session) (node : Node) : Noted (List Entry) :=
  let here := session.surroundings
  match node.kind with
  | .interface => if node.name.isEmpty then pure [] else (fun entry => [.class_ entry]) <$> here.interface node
  | .protocol => if node.name.isEmpty then pure [] else (fun entry => [.class_ entry]) <$> here.protocol node
  | .category => (fun entry => (entry.map .class_).toList) <$> here.category? node
  | .record kind => (fun entry => if entry.isAnonymous then [] else [.record entry]) <$> here.record kind node
  | .enum =>
    if Surroundings.isAnonymousEnum node then (·.map .global) <$> here.anonymousConstants node
    else (fun entry => [.enum entry]) <$> here.enum node
  | .function => if node.name.isEmpty then pure [] else (fun entry => [.function entry]) <$> here.function node
  | .global => if node.name.isEmpty then pure [] else (fun entry => [.global entry]) <$> here.global node
  | .synonym =>
    if node.name.isEmpty then pure []
    else
      match session.pending.filter (namesRecord node ·.kind) with
      | some unnamed =>
        let record := unnamed.rename node.name
        (fun entry => [.record record, .synonym entry]) <$> here.synonymOfRecord record node
      | none => (fun entry => [.synonym entry]) <$> here.synonym node
  | _ => pure []

/-- Everything that a session may describe a declaration as has a property, and so has the record that waits once it has
the name of the declaration. -/
structure EachDescribed (P : Entry → Prop) (session : Session) (node : Node) : Prop where
  interface : P (.class_ (session.surroundings.interface node).value)
  protocol : P (.class_ (session.surroundings.protocol node).value)
  category : ∀ entry ∈ (session.surroundings.category? node).value, P (.class_ entry)
  record : ∀ kind, P (.record (session.surroundings.record kind node).value)
  enum : P (.enum (session.surroundings.enum node).value)
  constants : ∀ entry ∈ (session.surroundings.anonymousConstants node).value, P (.global entry)
  function : P (.function (session.surroundings.function node).value)
  global : P (.global (session.surroundings.global node).value)
  synonym : P (.synonym (session.surroundings.synonym node).value)
  named : ∀ unnamed ∈ session.pending, P (.record (unnamed.rename node.name)) ∧
    P (.synonym (session.surroundings.synonymOfRecord (unnamed.rename node.name) node).value)

/-- What each description has, the entries of the account have. -/
theorem EachDescribed.account {P : Entry → Prop} {session : Session} {node : Node} (h : EachDescribed P session node) :
    ∀ entry ∈ (session.account node).value, P entry := by
  have hnamed {α : Type} (toEntry : α → Entry) (noted : Noted α) (hentry : P (toEntry noted.value)) :
      ∀ entry ∈ (if node.name.isEmpty then pure [] else (fun value => [toEntry value]) <$> noted : Noted _).value,
        P entry := by
    split
    · exact List.forall_mem_nil _
    · exact List.forall_mem_singleton.2 hentry
  unfold Session.account
  cases node.kind with
  | interface => exact hnamed .class_ _ h.interface
  | protocol => exact hnamed .class_ _ h.protocol
  | function => exact hnamed .function _ h.function
  | global => exact hnamed .global _ h.global
  | category =>
    intro entry hentry
    obtain ⟨category, hcategory, rfl⟩ := Option.map_eq_some_iff.1 (Option.mem_toList.1 hentry)
    exact h.category category hcategory
  | record kind =>
    have hrecord := h.record kind
    rw [Noted.value_map]
    split
    · exact List.forall_mem_nil _
    · exact List.forall_mem_singleton.2 hrecord
  | enum =>
    dsimp only
    split
    · exact List.forall_mem_map.2 h.constants
    · exact List.forall_mem_singleton.2 h.enum
  | synonym =>
    dsimp only
    cases hpending : session.pending.filter (namesRecord node ·.kind) with
    | none => exact hnamed .synonym _ h.synonym
    | some unnamed =>
      obtain ⟨hrecord, hsynonym⟩ := h.named unnamed (Option.filter_eq_some_iff.1 hpending).1
      split
      · exact List.forall_mem_nil _
      · exact List.forall_mem_cons.2 ⟨hrecord, List.forall_mem_singleton.2 hsynonym⟩
  | _ => exact List.forall_mem_nil _

theorem handsOver_map {α : Type} (noted : Noted α) (entries : α → List Entry) :
    (entries <$> noted).handsOver id = noted.handsOver entries := by
  simp [Noted.handsOver]

/-- The blocks that were met and the entries of the description are what a declaration hands over. -/
theorem submissions_eq (session : Session) (node : Node) :
    session.submissions node = (session.account node).handsOver id := by
  unfold submissions account
  cases node.kind with
  | interface | protocol | function | global =>
    dsimp only
    split
    · rfl
    · exact (handsOver_map _ _).symm
  | category | record _ => exact (handsOver_map _ _).symm
  | enum =>
    dsimp only
    split <;> exact (handsOver_map _ _).symm
  | synonym =>
    dsimp only
    split
    · rfl
    cases session.pending.filter (namesRecord node ·.kind) with
    | some unnamed => rfl
    | none => exact (handsOver_map _ _).symm
  | _ => rfl

/-! ## Taking over notes -/

/-- A session goes on from another one with the notes of a description taken over. -/
structure Heeds {α : Type} (session : Session) (noted : Noted α) (next : Session) : Prop where
  settings_eq : next.settings = session.settings
  location_eq : next.location = noted.located.getD session.location
  dependencies_eq : next.dependencies = noted.references.foldl session.settings.depend session.dependencies

/-- Sessions that differ neither in settings nor in what notes decide. -/
structure SamePlace (session next : Session) : Prop where
  settings_eq : next.settings = session.settings
  location_eq : next.location = session.location
  dependencies_eq : next.dependencies = session.dependencies

theorem SamePlace.refl (session : Session) : session.SamePlace session := ⟨rfl, rfl, rfl⟩

theorem SamePlace.trans {session next last : Session} (h : session.SamePlace next) (hnext : next.SamePlace last) :
    session.SamePlace last :=
  ⟨hnext.settings_eq.trans h.settings_eq, hnext.location_eq.trans h.location_eq,
    hnext.dependencies_eq.trans h.dependencies_eq⟩

/-- A session that takes over nothing stays where it is. -/
theorem SamePlace.heeds_pure {α : Type} {session next : Session} (h : session.SamePlace next) (value : α) :
    session.Heeds (pure value : Noted α) next :=
  ⟨h.settings_eq, h.location_eq, h.dependencies_eq⟩

namespace Heeds

variable {α β : Type} {session begun next last : Session} {noted : Noted α}

theorem of_start (h : begun.Heeds noted next) (hstart : session.SamePlace begun) : session.Heeds noted next where
  settings_eq := h.settings_eq.trans hstart.settings_eq
  location_eq := by rw [h.location_eq, hstart.location_eq]
  dependencies_eq := by rw [h.dependencies_eq, hstart.settings_eq, hstart.dependencies_eq]

theorem andThen (h : session.Heeds noted next) (hend : next.SamePlace last) : session.Heeds noted last :=
  ⟨hend.settings_eq.trans h.settings_eq, hend.location_eq.trans h.location_eq,
    hend.dependencies_eq.trans h.dependencies_eq⟩

/-- The value of a description makes no difference. -/
theorem of_notes {other : Noted β} (h : session.Heeds noted next) (hlocated : other.located = noted.located)
    (hreferences : other.references = noted.references) : session.Heeds other next where
  settings_eq := h.settings_eq
  location_eq := by rw [hlocated, h.location_eq]
  dependencies_eq := by rw [hreferences, h.dependencies_eq]

theorem map (h : session.Heeds noted next) (f : α → β) : session.Heeds (f <$> noted) next :=
  h.of_notes (Noted.located_map f noted) (Noted.references_map f noted)

end Heeds

theorem samePlace_begin (session : Session) (ref : EntryRef) : session.SamePlace (session.begin ref) := ⟨rfl, rfl, rfl⟩

theorem samePlace_dropPending (session : Session) : session.SamePlace session.dropPending := ⟨rfl, rfl, rfl⟩

theorem samePlace_finish (session : Session) : session.SamePlace session.finish := by
  unfold finish
  split
  · exact .refl session
  · exact ⟨rfl, rfl, rfl⟩

theorem samePlace_register (session : Session) (entry : Entry) : session.SamePlace (session.register entry) := by
  unfold register
  split
  · exact .refl session
  · exact ⟨rfl, rfl, rfl⟩

theorem samePlace_registerAll {α : Type} (session : Session) (toEntry : α → Entry) (values : List α) :
    session.SamePlace (values.foldl (fun session value => session.register (toEntry value)) session) := by
  rw [registerAll_eq]
  exact ⟨rfl, rfl, rfl⟩

theorem heeds_noteReference (session : Session) (location : Option Location) :
    session.Heeds (Noted.refer location) (session.noteReference location) := by
  cases location with
  | none => exact ⟨rfl, rfl, rfl⟩
  | some location =>
    rw [noteReference_eq]
    exact ⟨rfl, rfl, rfl⟩

theorem heeds_absorb {α : Type} (session : Session) (noted : Noted α) : session.Heeds noted (session.absorb noted) := by
  rw [absorb_eq]
  exact ⟨rfl, rfl, rfl⟩

theorem heeds_work (session : Session) (ref : EntryRef) (describe : Surroundings → Noted (Option Entry)) :
    session.Heeds (describe session.surroundings) (session.work ref describe) := by
  have habsorb := ((session.begin ref).heeds_absorb (describe session.surroundings)).of_start
    (session.samePlace_begin ref)
  unfold work
  dsimp only
  rw [surroundings_begin]
  refine (habsorb.andThen ?_).andThen (samePlace_finish _)
  cases (describe session.surroundings).value with
  | none => exact .refl _
  | some entry => exact samePlace_register _ entry

/-- A declaration that must have a name and has none is passed over, and nothing is noted. -/
theorem heeds_workNamed {α : Type} (session : Session) (kind : EntryKind) (node : Node)
    (describe : Surroundings → Noted α) (toEntry : α → Entry) (entries : α → List Entry) :
    session.Heeds (if node.name.isEmpty then pure [] else entries <$> describe session.surroundings)
      (session.workNamed kind node fun here => toEntry <$> describe here) := by
  unfold workNamed
  by_cases hname : node.name.isEmpty = true
  · rw [if_pos hname, if_pos hname]
    exact (SamePlace.refl session).heeds_pure _
  · rw [if_neg hname, if_neg hname]
    have hwork := session.heeds_work ⟨kind, node.name⟩ fun here => some <$> toEntry <$> describe here
    exact hwork.of_notes (by simp) (by simp)

theorem heeds_describeRecord (session : Session) (kind : RecordKind) (node : Node) :
    session.Heeds (session.surroundings.record kind node) (session.describeRecord kind node) := by
  have habsorb := ((session.begin ⟨.record kind, node.name⟩).heeds_absorb
    (session.surroundings.record kind node)).of_start (session.samePlace_begin _)
  unfold describeRecord
  dsimp only
  rw [surroundings_begin]
  refine (habsorb.andThen ?_).andThen (samePlace_finish _)
  split
  · exact ⟨rfl, rfl, rfl⟩
  · exact samePlace_register _ _

theorem heeds_describeConstants (session : Session) (node : Node) :
    session.Heeds (session.surroundings.anonymousConstants node) (session.describeConstants node) :=
  (session.heeds_absorb _).andThen (samePlace_registerAll _ Entry.global _)

theorem heeds_describeSynonym (session : Session) {node : Node} (h : node.kind = .synonym) :
    session.Heeds (session.account node) (session.describeSynonym node) := by
  unfold account describeSynonym
  rw [h]
  dsimp only
  by_cases hname : node.name.isEmpty = true
  · rw [if_pos hname, if_pos hname]
    exact session.samePlace_dropPending.heeds_pure _
  rw [if_neg hname, if_neg hname]
  cases session.pending.filter (namesRecord node ·.kind) with
  | none =>
    have hwork := session.dropPending.heeds_work ⟨.synonym, node.name⟩
      fun here => (some ∘ Entry.synonym) <$> here.synonym node
    exact (hwork.of_start session.samePlace_dropPending).of_notes (by simp) (by simp)
  | some unnamed =>
    -- The record is registered first; the description behind it does not look at the registry.
    let record := unnamed.rename node.name
    let begun := (session.dropPending.begin ⟨.synonym, node.name⟩).register (.record record)
    have hbegun : session.SamePlace begun :=
      (session.samePlace_dropPending.trans (samePlace_begin _ _)).trans (samePlace_register _ _)
    have hnoted : begun.surroundings.synonymOfRecord record node =
        session.surroundings.synonymOfRecord record node := by
      have hsettings : begun.surroundings.settings = session.surroundings.settings := hbegun.settings_eq
      unfold Surroundings.synonymOfRecord Surroundings.enter Surroundings.heading
      rw [hsettings]
      rfl
    have habsorb := (begun.heeds_absorb (begun.surroundings.synonymOfRecord record node)).of_start hbegun
    have hend := (habsorb.andThen (samePlace_register _
      (.synonym (begun.surroundings.synonymOfRecord record node).value))).andThen (samePlace_finish _)
    dsimp only
    rw [← hnoted]
    exact hend.map _

/-- The notes of a declaration that is described are taken over. -/
theorem heeds_describe (session : Session) (node : Node) :
    session.Heeds (session.account node) (session.describe node) := by
  cases hkind : node.kind with
  | interface =>
    simpa only [describe, account, hkind] using
      session.heeds_workNamed .class_ node (·.interface node) Entry.class_ fun entry => [.class_ entry]
  | protocol =>
    simpa only [describe, account, hkind] using
      session.heeds_workNamed .protocol node (·.protocol node) Entry.class_ fun entry => [.class_ entry]
  | function =>
    simpa only [describe, account, hkind] using
      session.heeds_workNamed .function node (·.function node) Entry.function fun entry => [.function entry]
  | global =>
    simpa only [describe, account, hkind] using
      session.heeds_workNamed .global node (·.global node) Entry.global fun entry => [.global entry]
  | category =>
    have hwork := session.heeds_work ⟨.extension, ((Surroundings.extendedClass? node).map (·.name)).getD ""⟩
      fun here => Option.map .class_ <$> here.category? node
    simp only [describe, account, hkind]
    exact hwork.of_notes (by simp) (by simp)
  | record kind =>
    simpa only [describe, account, hkind] using (session.heeds_describeRecord kind node).map _
  | enum =>
    by_cases hanonymous : Surroundings.isAnonymousEnum node = true
    · simpa only [describe, account, hkind, hanonymous, if_true] using (session.heeds_describeConstants node).map _
    · have hwork := session.heeds_work ⟨.enum, node.name⟩ fun here => (some ∘ Entry.enum) <$> here.enum node
      simp only [describe, account, hkind, hanonymous, Bool.false_eq_true, if_false]
      exact hwork.of_notes (by simp) (by simp)
  | synonym =>
    rw [describe, hkind]
    exact session.heeds_describeSynonym hkind
  | _ =>
    simp only [describe, account, hkind]
    exact (SamePlace.refl session).heeds_pure _

/-! ## Along a walk -/

theorem account_dropPending (session : Session) {node : Node} (h : node.kind ≠ .synonym) :
    session.dropPending.account node = session.account node := by
  cases hkind : node.kind with
  | synonym => exact absurd hkind h
  | _ => simp only [account, hkind, surroundings_dropPending]

/-- A declaration that is described has its notes taken over; another one that is come upon leaves nothing but the end
of the waiting. -/
theorem heeds_meet (session : Session) (encounter : Encounter) :
    session.Heeds (if encounter.treatment = .describe then session.account encounter.node else pure [])
      (session.meet encounter) := by
  unfold meet
  cases encounter.treatment with
  | describe =>
    dsimp only
    by_cases hkind : encounter.node.kind = .synonym
    · rw [if_pos hkind, if_pos rfl]
      exact session.heeds_describe encounter.node
    · rw [if_neg hkind, if_pos rfl, ← session.account_dropPending hkind]
      exact (session.dropPending.heeds_describe encounter.node).of_start session.samePlace_dropPending
  | skip | pass =>
    dsimp only
    rw [if_neg (by decide)]
    split
    · exact (SamePlace.refl session).heeds_pure _
    · exact session.samePlace_dropPending.heeds_pure _

/-- The descriptions that a session makes on its way along a list of declarations. -/
def accounts (session : Session) : List Encounter → List (Noted (List Entry))
  | [] => []
  | encounter :: rest =>
    if encounter.treatment = .describe then session.account encounter.node :: (session.meet encounter).accounts rest
    else (session.meet encounter).accounts rest

/-- The entries handed over on the way are those of the descriptions. -/
theorem history_eq_flatMap (session : Session) (encounters : List Encounter) :
    session.history encounters = (session.accounts encounters).flatMap (·.handsOver id) := by
  induction encounters generalizing session with
  | nil => rfl
  | cons encounter rest ih =>
    unfold history accounts handedOver
    rw [ih]
    split
    · rw [List.flatMap_cons, submissions_eq]
    · rfl

/-- A description is made of one of the declarations that are come upon, in the session as it is there. -/
theorem mem_accounts {session : Session} {encounters : List Encounter} {noted : Noted (List Entry)} :
    noted ∈ session.accounts encounters ↔ ∃ earlier node later,
      encounters = earlier ++ ⟨node, .describe⟩ :: later ∧ noted = (earlier.foldl meet session).account node := by
  induction encounters generalizing session with
  | nil => simp [accounts]
  | cons encounter rest ih =>
    have hrest : noted ∈ (session.meet encounter).accounts rest ↔ ∃ earlier node later,
        encounter :: rest = (encounter :: earlier) ++ ⟨node, .describe⟩ :: later ∧
          noted = ((encounter :: earlier).foldl meet session).account node := by
      rw [ih]
      simp only [List.cons_append, List.cons.injEq, true_and, List.foldl_cons]
    rw [accounts]
    constructor
    · intro h
      split at h
      case isTrue htreatment =>
        rcases List.mem_cons.1 h with rfl | h
        · exact ⟨[], encounter.node, rest, by rw [← htreatment]; rfl, rfl⟩
        · obtain ⟨earlier, node, later, hsplit, hnoted⟩ := hrest.1 h
          exact ⟨encounter :: earlier, node, later, hsplit, hnoted⟩
      case isFalse =>
        obtain ⟨earlier, node, later, hsplit, hnoted⟩ := hrest.1 h
        exact ⟨encounter :: earlier, node, later, hsplit, hnoted⟩
    · rintro ⟨earlier, node, later, hsplit, hnoted⟩
      cases earlier with
      | nil =>
        obtain ⟨rfl, rfl⟩ := List.cons.inj hsplit
        rw [if_pos rfl]
        exact List.mem_cons.2 (Or.inl hnoted)
      | cons first earlier =>
        obtain ⟨rfl, hsplit'⟩ := List.cons.inj hsplit
        have hmem := hrest.2 ⟨earlier, node, later, hsplit, hnoted⟩
        split
        · exact List.mem_cons_of_mem _ hmem
        · exact hmem

/-- A walk depends on what the session depended on, and on the frameworks that its descriptions refer to. -/
theorem mem_dependencies_foldl_meet {session : Session} {encounters : List Encounter} {framework : String} :
    framework ∈ (encounters.foldl meet session).dependencies ↔ framework ∈ session.dependencies ∨
      ∃ noted ∈ session.accounts encounters, ∃ location ∈ noted.references,
        session.settings.dependency? location = some framework := by
  induction encounters generalizing session with
  | nil => simp [accounts]
  | cons encounter rest ih =>
    have hheeds := session.heeds_meet encounter
    rw [List.foldl_cons, ih, hheeds.dependencies_eq, Settings.mem_foldl_depend, hheeds.settings_eq, or_assoc]
    refine or_congr_right ?_
    rw [accounts]
    split
    · simp only [List.mem_cons, exists_eq_or_imp]
    · simp

end Session

end HeaderCatalog
