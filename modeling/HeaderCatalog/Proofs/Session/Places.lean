import HeaderCatalog.Proofs.Registry.Coherent
import HeaderCatalog.Proofs.Session.Outlines
import HeaderCatalog.Proofs.Survey.Waiting

set_option autoImplicit false

/-!
# Where entries stand

A session can be worked with step by step: entries are registered, declarations and types are described, references
noted, whole trees walked (`Operation`).  Whatever is done in whatever order, no entry that it registers stands at a
place that is left out.

Places come from classifying what the front end reports or are handed in with an entry.  `Placed` follows a property of
places through a session: if it holds of all places that are classified and of all that are handed in, it holds of all
that are registered (`placed_perform`).
-/

namespace HeaderCatalog

/-! ## Working step by step -/

/-- What can be described in given surroundings. -/
inductive Subject where
  | interface (node : Node)
  | protocol (node : Node)
  | category (node : Node)
  | record (kind : RecordKind) (node : Node)
  | enum (node : Node)
  /-- The constants of an enumeration without a name. -/
  | constants (node : Node)
  | global (node : Node)
  | function (node : Node)
  | synonym (node : Node)
  | method (owner : String) (node : Node)
  | property (node : Node)
  | ivar (node : Node)
  | argument (hint : Option String) (node : Node)
  /-- A block, which may be noted itself. -/
  | block (isCollected : Bool) (handle : TypeHandle)
  | type (hint : Option String) (handle : TypeHandle)
  | memberType (hint : Option String) (handle : TypeHandle)
  | signature (callable : Callable)

/-- What is noted when a subject is described. -/
def Surroundings.notes (here : Surroundings) : Subject → Noted Unit
  | .interface node => discard (here.interface node)
  | .protocol node => discard (here.protocol node)
  | .category node => discard (here.category? node)
  | .record kind node => discard (here.record kind node)
  | .enum node => discard (here.enum node)
  | .constants node => discard (here.anonymousConstants node)
  | .global node => discard (here.global node)
  | .function node => discard (here.function node)
  | .synonym node => discard (here.synonym node)
  | .method owner node => discard (here.method owner node)
  | .property node => discard (here.property node)
  | .ivar node => discard (here.ivar node)
  | .argument hint node => discard (here.argument hint node)
  | .block isCollected handle => discard (if isCollected then here.collectBlock? handle else here.block? handle)
  | .type hint handle => discard (here.type hint handle)
  | .memberType hint handle => discard (here.memberType hint handle)
  | .signature callable => discard (here.signature callable)

/-- One thing done with a session. -/
inductive Operation where
  | register (entry : Entry)
  /-- Describes something and takes over the notes. -/
  | describe (subject : Subject)
  | noteReference (location : Option Location)
  | locate (node : Node)
  | begin (ref : EntryRef)
  | finish
  /-- Lets an unnamed record wait for its name. -/
  | await (record : RecordEntry)
  | dropPending
  /-- Walks a list of siblings. -/
  | walk (nodes : List Node)

/-- The entries that are handed in. -/
def Operation.given : Operation → List Entry
  | register entry => [entry]
  | await record => [.record record]
  | _ => []

namespace Session

/-- A session after an operation. -/
def perform (session : Session) : Operation → Session
  | .register entry => session.register entry
  | .describe subject => session.absorb (session.surroundings.notes subject)
  | .noteReference location => session.noteReference location
  | .locate node => session.locate node
  | .begin ref => session.begin ref
  | .finish => session.finish
  | .await record => { session with pending := some record }
  | .dropPending => session.dropPending
  | .walk nodes => session.walk nodes

/-! ## Places of a session -/

/-- All places that a session knows are of a certain kind, those that it will classify included, and no entry stands at
one that is left out. -/
structure Placed (settings : Settings) (P : Source → Prop) (session : Session) : Prop where
  settings_eq : session.settings = settings
  classify : ∀ location, P (settings.classify location)
  location : P session.location
  pending : ∀ record ∈ session.pending, P record.heading.source
  registered : ∀ entry ∈ session.registry.values,
    P entry.heading.source ∧ settings.excludes entry.heading.source = false

namespace Placed

variable {settings : Settings} {P : Source → Prop} {session next : Session}

/-- One step: a session that gains entries and goes on to a place is placed if they are. -/
theorem step {α : Type} {noted : Noted α} {entries : List Entry} (h : session.Placed settings P)
    (hheeds : session.Heeds noted next) (hgains : session.Gains entries next)
    (hlocated : ∀ place ∈ noted.located, P place) (hentries : ∀ entry ∈ entries, P entry.heading.source)
    (hpending : ∀ record ∈ next.pending, P record.heading.source) : next.Placed settings P where
  settings_eq := hheeds.settings_eq.trans h.settings_eq
  classify := h.classify
  location := by
    rw [hheeds.location_eq]
    cases hplace : noted.located with
    | none => exact h.location
    | some place => exact hlocated place hplace
  pending := hpending
  registered := by
    intro entry hentry
    rw [hgains.registry_eq] at hentry
    obtain ⟨origin, horigin, hheading⟩ := Registry.exists_heading_registerAll hentry
    rw [hheading]
    rcases horigin with hold | hnew
    · exact h.registered origin hold
    · obtain ⟨hmem, hkept⟩ := List.mem_filter.1 hnew
      exact ⟨hentries origin hmem, by simpa [Settings.keeps, h.settings_eq] using hkept⟩

/-- A session that stays where it is and gains nothing stays placed. -/
theorem of_samePlace (h : session.Placed settings P) (hplace : session.SamePlace next)
    (hregistry : next.registry = session.registry)
    (hpending : ∀ record ∈ next.pending, P record.heading.source) : next.Placed settings P :=
  h.step (hplace.heeds_pure ()) (.of_eq hplace.settings_eq hregistry) nofun (List.forall_mem_nil _) hpending

/-- A session describes things in surroundings where all that is noted is placed. -/
theorem within (h : session.Placed settings P) : session.surroundings.Within P session.surroundings where
  settings := .refl _
  source_eq := rfl
  source := h.location
  classify location := by
    change P (session.settings.classify location)
    rw [h.settings_eq]
    exact h.classify location

theorem absorb {α : Type} {noted : Noted α} (h : session.Placed settings P) (hnoted : noted.Within P noted) :
    (session.absorb noted).Placed settings P := by
  refine h.step (session.heeds_absorb noted) (session.gains_absorb noted) hnoted.located ?_ ?_
  · intro entry hentry
    obtain ⟨block, hblock, rfl⟩ := List.mem_map.1 hentry
    exact hnoted.places block hblock
  · rw [pending_absorb]
    exact h.pending

/-- What a declaration hands over stands at places of the session. -/
theorem handedOver (h : session.Placed settings P) (encounter : Encounter) :
    ∀ entry ∈ session.handedOver encounter, P entry.heading.source := by
  intro entry hentry
  unfold Session.handedOver at hentry
  split at hentry
  case isFalse => cases hentry
  rw [submissions_eq] at hentry
  rcases List.mem_append.1 hentry with hblock | hvalue
  · obtain ⟨block, hmet, rfl⟩ := List.mem_map.1 hblock
    exact (within_account h.within.toTightens rfl encounter.node).places block hmet
  · have houtline : entry.outline ∈ session.settings.outlines session.pending encounter.node := by
      rw [← outlines_account]
      exact List.mem_map_of_mem hvalue
    rw [h.settings_eq] at houtline
    rcases Settings.source_of_mem_outlines houtline with ⟨location, hsource⟩ | ⟨record, hrecord, hsource⟩
    · exact hsource ▸ h.classify location
    · exact hsource ▸ h.pending record hrecord

theorem meet (h : session.Placed settings P) (encounter : Encounter) : (session.meet encounter).Placed settings P := by
  refine h.step (session.heeds_meet encounter) (session.gains_meet encounter) ?_ (h.handedOver encounter) ?_
  · split
    · exact (within_account h.within.toTightens rfl encounter.node).located
    · exact nofun
  · intro record hrecord
    rcases pending_meet hrecord with ⟨-, hunnamed⟩ | ⟨-, -, hpending⟩
    · have hplace : record.heading.source = settings.classify encounter.node.location := by
        rw [hunnamed.described, ← h.settings_eq]
        rfl
      rw [hplace]
      exact h.classify encounter.node.location
    · exact h.pending record hpending

theorem walk (h : session.Placed settings P) (nodes : List Node) : (session.walk nodes).Placed settings P := by
  unfold Session.walk
  induction Node.encountersIn session.settings nodes generalizing session with
  | nil => exact h
  | cons encounter rest ih => exact ih (h.meet encounter)

end Placed

end Session

theorem Surroundings.within_notes {P : Source → Prop} {here there : Surroundings} (h : here.Within P there)
    (subject : Subject) : (here.notes subject).Within P (there.notes subject) := by
  cases subject with
  | interface node => exact (within_interface h.toTightens node).map _ _
  | protocol node => exact (within_protocol h.toTightens node).map _ _
  | category node => exact (within_category? h.toTightens node).map _ _
  | record kind node => exact (within_record h.toTightens kind node).map _ _
  | enum node => exact (within_enum h.toTightens node).map _ _
  | constants node => exact (within_anonymousConstants h.toTightens node).map _ _
  | global node => exact (within_global h.toTightens node).map _ _
  | function node => exact (within_function h.toTightens node).map _ _
  | synonym node => exact (within_synonym h.toTightens node).map _ _
  | method owner node => exact (within_method h owner owner node).map _ _
  | property node => exact (within_property h node).map _ _
  | ivar node => exact (within_ivar h node).map _ _
  | argument hint node => exact (within_argument h hint node).map _ _
  | block isCollected handle =>
    cases isCollected with
    | true => exact (within_collectBlock? h handle).map _ _
    | false => exact (within_block? h handle).map _ _
  | type hint handle => exact (within_type hint handle).map _ _
  | memberType hint handle => exact (within_memberType hint handle).map _ _
  | signature callable => exact (within_signature callable).map _ _

namespace Session

variable {settings : Settings} {P : Source → Prop} {session : Session}

theorem pending_noteReference (session : Session) (location : Option Location) :
    (session.noteReference location).pending = session.pending := by
  cases location with
  | none => rfl
  | some location => rw [noteReference_eq]

/-- An operation keeps a session placed if what it is given is placed. -/
theorem placed_perform (h : session.Placed settings P) (operation : Operation)
    (hgiven : ∀ entry ∈ operation.given, P entry.heading.source) : (session.perform operation).Placed settings P := by
  cases operation with
  | register entry =>
    have hpending : (session.register entry).pending = session.pending := session.pending_register entry
    exact h.step ((session.samePlace_register entry).heeds_pure ()) (session.gains_register entry) nofun hgiven
      (hpending ▸ h.pending)
  | describe subject => exact h.absorb (Surroundings.within_notes h.within subject)
  | noteReference location =>
    have hpending : (session.noteReference location).pending = session.pending := session.pending_noteReference location
    exact h.step (session.heeds_noteReference location) (session.gains_noteReference location) nofun
      (List.forall_mem_nil _) (hpending ▸ h.pending)
  | locate node =>
    let noted : Noted Unit := { value := (), located := some (session.settings.classify node.location) }
    have hheeds : session.Heeds noted (session.locate node) := ⟨rfl, rfl, rfl⟩
    refine h.step hheeds (.of_eq rfl rfl) (fun place hplace => ?_) (List.forall_mem_nil _) h.pending
    cases hplace
    rw [h.settings_eq]
    exact h.classify node.location
  | begin ref => exact h.of_samePlace (session.samePlace_begin ref) rfl h.pending
  | finish =>
    have hregistry : session.finish.registry = session.registry := (Gains.refl session).finish.registry_eq
    have hpending : session.finish.pending = session.pending := session.pending_finish
    exact h.of_samePlace session.samePlace_finish hregistry (hpending ▸ h.pending)
  | await record =>
    refine h.of_samePlace ⟨rfl, rfl, rfl⟩ rfl fun waiting hwaiting => ?_
    cases hwaiting
    exact hgiven (.record record) List.mem_cons_self
  | dropPending => exact h.of_samePlace session.samePlace_dropPending rfl nofun
  | walk nodes => exact h.walk nodes

/-- A run of operations keeps a session placed. -/
theorem placed_foldl_perform (h : session.Placed settings P) {operations : List Operation}
    (hgiven : ∀ operation ∈ operations, ∀ entry ∈ operation.given, P entry.heading.source) :
    (operations.foldl perform session).Placed settings P := by
  induction operations generalizing session with
  | nil => exact h
  | cons operation rest ih =>
    have hfirst := placed_perform h operation (hgiven operation List.mem_cons_self)
    exact ih hfirst fun later hlater => hgiven later (List.mem_cons_of_mem operation hlater)

end Session

/-! ## What is left out -/

namespace Settings

variable {settings : Settings}

theorem filename_classify {location : Location} (h : location.filename.isEmpty = false) :
    (settings.classify (some location)).filename = location.filename := by
  unfold classify
  dsimp only
  rw [if_neg (by simp [h])]
  split
  · rfl
  · split <;> rfl

/-- A place without a file does not come with the SDK, where it comes from classifying. -/
theorem isSystem_classify {location : Option Location} (h : (settings.classify location).isUnresolved = true) :
    (settings.classify location).isSystem = false := by
  cases location with
  | none => rfl
  | some location =>
    cases hempty : location.filename.isEmpty with
    | true =>
      have hunresolved : settings.classify (some location) = .unresolved := if_pos hempty
      rw [hunresolved]
      rfl
    | false =>
      rw [Source.isUnresolved, filename_classify hempty, hempty] at h
      cases h

/-- A place is kept if it has no file, or if the settings leave out neither where it comes from nor its framework. -/
theorem excludes_eq_false_iff {place : Source} : settings.excludes place = false ↔
    place.isUnresolved = true ∨ (settings.excludeSystem = true → place.isSystem = false) ∧
      (settings.frameworkFilter ≠ "" → place.framework = settings.frameworkFilter) := by
  have hfilter : settings.keepsOneFramework = true ↔ settings.frameworkFilter ≠ "" := by
    simp [keepsOneFramework]
  unfold excludes
  rw [← hfilter]
  cases place.isUnresolved <;> cases settings.excludeSystem <;> cases settings.keepsOneFramework <;> simp

end Settings

/-- **What is left out is not registered**, whatever is done with a session.  If declarations of the SDK are left out,
an entry that comes with the SDK stands in no file, and it was handed in with that place.  If one framework is kept, an
entry belongs to it or stands in no file. -/
theorem not_excluded_of_mem_values (settings : Settings) (operations : List Operation) :
    ∀ entry ∈ (operations.foldl Session.perform (Session.start settings)).registry.values,
      settings.excludes entry.heading.source = false ∧
      (settings.excludeSystem = true → entry.heading.source.isSystem = true →
        entry.heading.source.isUnresolved = true ∧
          ∃ operation ∈ operations, ∃ given ∈ operation.given, given.heading.source = entry.heading.source) ∧
      (settings.frameworkFilter ≠ "" →
        entry.heading.source.framework = settings.frameworkFilter ∨ entry.heading.source.isUnresolved = true) := by
  -- A place of the SDK without a file is none that was classified.
  let P (place : Source) : Prop := place.isUnresolved = true → place.isSystem = true →
    ∃ operation ∈ operations, ∃ given ∈ operation.given, given.heading.source = place
  have hclassify : ∀ location, P (settings.classify location) := by
    intro location hunresolved hsystem
    rw [Settings.isSystem_classify hunresolved] at hsystem
    cases hsystem
  have hstart : (Session.start settings).Placed settings P :=
    { settings_eq := rfl
      classify := hclassify
      location := hclassify none
      pending := nofun
      registered := fun _ hentry => nomatch hentry }
  have hplaced : (operations.foldl Session.perform (Session.start settings)).Placed settings P :=
    Session.placed_foldl_perform hstart fun operation hoperation given hgiven _ _ =>
      ⟨operation, hoperation, given, hgiven, rfl⟩
  intro entry hentry
  obtain ⟨hplace, hkept⟩ := hplaced.registered entry hentry
  refine ⟨hkept, fun hexclude hsystem => ?_, fun hfilter => ?_⟩
  · have hunresolved : entry.heading.source.isUnresolved = true := by
      rcases Settings.excludes_eq_false_iff.1 hkept with hunresolved | ⟨horigin, -⟩
      · exact hunresolved
      · rw [horigin hexclude] at hsystem
        cases hsystem
    exact ⟨hunresolved, hplace hunresolved hsystem⟩
  · exact (Settings.excludes_eq_false_iff.1 hkept).symm.imp_left fun hboth => hboth.2 hfilter

/-- A constant at a place of the SDK without a file. -/
def placelessAnswer : Entry :=
  .global { heading := ⟨"kAnswer", .global, ⟨"", 0, "", .system⟩, none⟩, type := ⟨"int", "int", ['i']⟩ }

/-- A tree with a declaration of the SDK and one of the user is walked, and a constant of the SDK without a file is
handed in: the first one is left out, the others are registered. -/
theorem not_excluded_placeless :
    let settings : Settings := { sdkPath := "/SDK", excludeSystem := true }
    let own : Node := { kind := .global, name := "kOwn", location := some ⟨"/src/own.h", 1⟩ }
    let system : Node := { kind := .global, name := "kSystem", location := some ⟨"/SDK/usr/include/a.h", 1⟩ }
    let operations : List Operation := [.walk [own, system], .register placelessAnswer]
    let session := operations.foldl Session.perform (Session.start settings)
    session.registry.values.map (fun entry => (entry.name, entry.heading.source.isSystem)) =
        [("kOwn", false), ("kAnswer", true)] ∧
      ∃ entry ∈ session.registry.values, entry.name = "kAnswer" ∧ settings.excludes entry.heading.source = false ∧
        entry.heading.source.isUnresolved = true ∧
        ∃ operation ∈ operations, ∃ given ∈ operation.given, given.heading.source = entry.heading.source := by
  intro settings own system operations session
  have hvalues : session.registry.values.map (fun entry => (entry.name, entry.heading.source.isSystem)) =
      [("kOwn", false), ("kAnswer", true)] := by decide +kernel
  have hlisted : ("kAnswer", true) ∈
      session.registry.values.map fun entry => (entry.name, entry.heading.source.isSystem) := by simp [hvalues]
  obtain ⟨entry, hmem, hanswer⟩ := List.mem_map.1 hlisted
  obtain ⟨hname, hsystem⟩ := Prod.mk.inj hanswer
  obtain ⟨hkept, hplaceless, -⟩ := not_excluded_of_mem_values settings operations entry hmem
  obtain ⟨hunresolved, hgiven⟩ := hplaceless rfl hsystem
  exact ⟨hvalues, entry, hmem, hname, hkept, hunresolved, hgiven⟩

/-- So an entry may come with the SDK although declarations of the SDK are left out: without a file it is not at a place
that is left out. -/
theorem not_forall_isSystem_eq_false :
    ¬ ∀ (settings : Settings) (operations : List Operation),
      ∀ entry ∈ (operations.foldl Session.perform (Session.start settings)).registry.values,
        settings.excludes entry.heading.source = false ∧
        (settings.excludeSystem = true → entry.heading.source.isSystem = false) ∧
        (settings.frameworkFilter ≠ "" →
          entry.heading.source.framework = settings.frameworkFilter ∨ entry.heading.source.isUnresolved = true) := by
  intro hall
  have hmem : placelessAnswer ∈
      ([.register placelessAnswer].foldl Session.perform (Session.start { excludeSystem := true })).registry.values :=
    List.mem_singleton.2 rfl
  have hsystem := (hall { excludeSystem := true } [.register placelessAnswer] placelessAnswer hmem).2.1 rfl
  cases hsystem

end HeaderCatalog
