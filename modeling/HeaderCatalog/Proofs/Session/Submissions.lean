import HeaderCatalog.Proofs.Registry.History
import HeaderCatalog.Survey

set_option autoImplicit false

/-!
# What a session registers

Every step of a session hands over some entries, and the registry after the step is the registry before it with those
of them that the settings keep.  What registering, referring and taking over notes change is one equation each
(`absorb_eq`).  `Gains` keeps of it what becomes of the registry, and steps that gain follow one another by putting their
entries one after the other.  `submissions` lists what the description of one declaration hands over, `history`
what a whole walk does, and `registry_survey` reads the registry of a run as the result of that history.
-/

namespace HeaderCatalog

/-- Whether the place of an entry is not left out. -/
def Settings.keeps (settings : Settings) (entry : Entry) : Bool := !settings.excludes entry.heading.source

/-- The entries that a description hands over: the blocks met on the way, then what becomes of its value. -/
def Noted.handsOver {α : Type} (noted : Noted α) (entries : α → List Entry) : List Entry :=
  noted.blocks.map .block ++ entries noted.value

/-! ## What a step changes -/

/-- The framework that a reference makes a run depend on. -/
def Settings.dependency? (settings : Settings) (location : Location) : Option String :=
  let framework := (settings.classify (some location)).framework
  if framework.isEmpty || framework = settings.frameworkName then none else some framework

/-- Dependencies with that of a further reference. -/
def Settings.depend (settings : Settings) (dependencies : List String) (location : Location) : List String :=
  match settings.dependency? location with
  | none => dependencies
  | some framework => insertSorted framework dependencies

namespace Session

theorem noteReference_eq (session : Session) (location : Location) :
    session.noteReference (some location) =
      { session with dependencies := session.settings.depend session.dependencies location } := by
  unfold noteReference Settings.depend Settings.dependency?
  dsimp only
  split <;> rfl

theorem references_eq (session : Session) (references : List Location) :
    references.foldl (fun session location => session.noteReference (some location)) session =
      { session with dependencies := references.foldl session.settings.depend session.dependencies } := by
  induction references generalizing session with
  | nil => rfl
  | cons location rest ih => rw [List.foldl_cons, ih, noteReference_eq, List.foldl_cons]

theorem register_eq (session : Session) (entry : Entry) :
    session.register entry =
      { session with registry := session.registry.registerAll ([entry].filter session.settings.keeps) } := by
  unfold register Settings.keeps
  split
  · next h => simp [h]
  · next h => simp [h, Registry.registerAll]

theorem registerAll_eq {α : Type} (session : Session) (toEntry : α → Entry) (values : List α) :
    values.foldl (fun session value => session.register (toEntry value)) session =
      { session with
        registry := session.registry.registerAll ((values.map toEntry).filter session.settings.keeps) } := by
  induction values generalizing session with
  | nil => rfl
  | cons value rest ih =>
    have hsplit : (value :: rest).map toEntry = [toEntry value] ++ rest.map toEntry := rfl
    rw [List.foldl_cons, ih, register_eq, hsplit, List.filter_append, Registry.registerAll_append]

/-- What notes change in a session: its place, its dependencies and its registry. -/
theorem absorb_eq {α : Type} (session : Session) (noted : Noted α) :
    session.absorb noted =
      { session with
        location := noted.located.getD session.location
        dependencies := noted.references.foldl session.settings.depend session.dependencies
        registry := session.registry.registerAll ((noted.blocks.map .block).filter session.settings.keeps) } := by
  unfold absorb
  dsimp only
  rw [references_eq, registerAll_eq]

theorem kind_of_mem_blocks {settings : Settings} {blocks : List Block} {entry : Entry}
    (h : entry ∈ (blocks.map Entry.block).filter settings.keeps) : entry.kind = .block := by
  obtain ⟨block, -, rfl⟩ := List.mem_map.1 (List.mem_filter.1 h).1
  rfl

/-! ## Gaining entries -/

/-- A session goes on from another one with the same settings and with the entries that these keep registered. -/
structure Gains (session : Session) (entries : List Entry) (next : Session) : Prop where
  settings_eq : next.settings = session.settings
  registry_eq : next.registry = session.registry.registerAll (entries.filter session.settings.keeps)

namespace Gains

theorem of_eq {session next : Session} (hsettings : next.settings = session.settings)
    (hregistry : next.registry = session.registry) : session.Gains [] next :=
  ⟨hsettings, hregistry⟩

theorem refl (session : Session) : session.Gains [] session := of_eq rfl rfl

theorem trans {session next last : Session} {first second : List Entry} (h : session.Gains first next)
    (hnext : next.Gains second last) : session.Gains (first ++ second) last := by
  refine ⟨hnext.settings_eq.trans h.settings_eq, ?_⟩
  rw [hnext.registry_eq, h.registry_eq, h.settings_eq, List.filter_append, Registry.registerAll_append]

/-- What a step starts from may be changed outside settings and registry. -/
theorem of_start {session begun next : Session} {entries : List Entry} (h : begun.Gains entries next)
    (hsettings : begun.settings = session.settings) (hregistry : begun.registry = session.registry) :
    session.Gains entries next := by
  obtain ⟨hsettings', hregistry'⟩ := h
  rw [hsettings] at hsettings' hregistry'
  rw [hregistry] at hregistry'
  exact ⟨hsettings', hregistry'⟩

theorem finish {session next : Session} {entries : List Entry} (h : session.Gains entries next) :
    session.Gains entries next.finish := by
  unfold Session.finish
  split
  · exact h
  · exact ⟨h.settings_eq, h.registry_eq⟩

end Gains

@[simp] theorem surroundings_begin (session : Session) (ref : EntryRef) :
    (session.begin ref).surroundings = session.surroundings := rfl

@[simp] theorem surroundings_dropPending (session : Session) :
    session.dropPending.surroundings = session.surroundings := rfl

theorem gains_register (session : Session) (entry : Entry) : session.Gains [entry] (session.register entry) := by
  rw [register_eq]
  exact ⟨rfl, rfl⟩

theorem gains_registerAll {α : Type} (session : Session) (toEntry : α → Entry) (values : List α) :
    session.Gains (values.map toEntry)
      (values.foldl (fun session value => session.register (toEntry value)) session) := by
  rw [registerAll_eq]
  exact ⟨rfl, rfl⟩

theorem gains_noteReference (session : Session) (location : Option Location) :
    session.Gains [] (session.noteReference location) := by
  unfold noteReference
  dsimp only
  split
  · exact .refl session
  · exact .of_eq rfl rfl

theorem gains_absorb {α : Type} (session : Session) (noted : Noted α) :
    session.Gains (noted.blocks.map .block) (session.absorb noted) := by
  rw [absorb_eq]
  exact ⟨rfl, rfl⟩

/-- Taking over notes does not change what is known.  So it does not matter for the types of a description when the
blocks that it meets are registered. -/
theorem lookup_absorb {α : Type} (session : Session) (noted : Noted α) :
    (session.absorb noted).registry.lookup = session.registry.lookup := by
  rw [absorb_eq]
  refine Registry.lookup_registerAll (fun entry hentry kind => ?_) fun entry hentry => ?_
  · rw [kind_of_mem_blocks hentry]
    nofun
  · rw [kind_of_mem_blocks hentry]
    nofun

theorem gains_work (session : Session) (ref : EntryRef) (describe : Surroundings → Noted (Option Entry)) :
    session.Gains ((describe session.surroundings).handsOver (·.toList)) (session.work ref describe) := by
  have habsorb : session.Gains _ ((session.begin ref).absorb (describe session.surroundings)) :=
    ((session.begin ref).gains_absorb _).of_start rfl rfl
  unfold work Noted.handsOver
  dsimp only
  rw [surroundings_begin]
  refine Gains.finish (habsorb.trans ?_)
  cases (describe session.surroundings).value with
  | none => exact .refl _
  | some entry => exact gains_register _ entry

/-! ## What a declaration hands over -/

/-- The entries that the description of a declaration hands over, those that are left out included. -/
def submissions (session : Session) (node : Node) : List Entry :=
  let here := session.surroundings
  match node.kind with
  | .interface => if node.name.isEmpty then [] else (here.interface node).handsOver fun entry => [.class_ entry]
  | .protocol => if node.name.isEmpty then [] else (here.protocol node).handsOver fun entry => [.class_ entry]
  | .category => (here.category? node).handsOver fun entry => (entry.map .class_).toList
  | .record kind =>
    (here.record kind node).handsOver fun entry => if entry.isAnonymous then [] else [.record entry]
  | .enum =>
    if Surroundings.isAnonymousEnum node then (here.anonymousConstants node).handsOver (·.map .global)
    else (here.enum node).handsOver fun entry => [.enum entry]
  | .function => if node.name.isEmpty then [] else (here.function node).handsOver fun entry => [.function entry]
  | .global => if node.name.isEmpty then [] else (here.global node).handsOver fun entry => [.global entry]
  | .synonym =>
    if node.name.isEmpty then []
    else
      match session.pending.filter (namesRecord node ·.kind) with
      | some unnamed =>
        let record := unnamed.rename node.name
        .record record :: (here.synonymOfRecord record node).handsOver fun entry => [.synonym entry]
      | none => (here.synonym node).handsOver fun entry => [.synonym entry]
  | _ => []

theorem gains_workNamed (session : Session) (kind : EntryKind) (node : Node)
    (describe : Surroundings → Noted Entry) :
    session.Gains (if node.name.isEmpty then [] else (describe session.surroundings).handsOver fun entry => [entry])
      (session.workNamed kind node describe) := by
  unfold workNamed
  by_cases hname : node.name.isEmpty = true
  · rw [if_pos hname, if_pos hname]
    exact .refl session
  · rw [if_neg hname, if_neg hname]
    simpa [Noted.handsOver] using session.gains_work ⟨kind, node.name⟩ fun here => some <$> describe here

theorem gains_describeRecord (session : Session) (kind : RecordKind) (node : Node) :
    session.Gains ((session.surroundings.record kind node).handsOver fun entry =>
      if entry.isAnonymous then [] else [.record entry]) (session.describeRecord kind node) := by
  have habsorb : session.Gains _
      ((session.begin ⟨.record kind, node.name⟩).absorb (session.surroundings.record kind node)) :=
    ((session.begin ⟨.record kind, node.name⟩).gains_absorb _).of_start rfl rfl
  unfold describeRecord Noted.handsOver
  dsimp only
  rw [surroundings_begin]
  refine Gains.finish (habsorb.trans ?_)
  split
  · exact .of_eq rfl rfl
  · exact gains_register _ _

theorem gains_describeConstants (session : Session) (node : Node) :
    session.Gains ((session.surroundings.anonymousConstants node).handsOver (·.map .global))
      (session.describeConstants node) :=
  (session.gains_absorb _).trans (gains_registerAll _ Entry.global _)

theorem gains_describeSynonym (session : Session) {node : Node} (h : node.kind = .synonym) :
    session.Gains (session.submissions node) (session.describeSynonym node) := by
  unfold submissions describeSynonym
  rw [h]
  dsimp only
  by_cases hname : node.name.isEmpty = true
  · rw [if_pos hname, if_pos hname]
    exact .of_eq rfl rfl
  rw [if_neg hname, if_neg hname]
  cases session.pending.filter (namesRecord node ·.kind) with
  | none =>
    have hwork := session.dropPending.gains_work ⟨.synonym, node.name⟩
      fun here => (some ∘ Entry.synonym) <$> here.synonym node
    have hdropped : session.Gains _ (session.dropPending.work ⟨.synonym, node.name⟩ _) := hwork.of_start rfl rfl
    simpa [Noted.handsOver] using hdropped
  | some unnamed =>
    -- The record goes in first; what follows it does not look at the registry.
    let record := unnamed.rename node.name
    let begun := (session.dropPending.begin ⟨.synonym, node.name⟩).register (.record record)
    have hrecord : session.Gains [.record record] begun :=
      ((session.dropPending.begin ⟨.synonym, node.name⟩).gains_register (.record record)).of_start rfl rfl
    have hnoted : begun.surroundings.synonymOfRecord record node =
        session.surroundings.synonymOfRecord record node := by
      have hsettings : begun.surroundings.settings = session.surroundings.settings := hrecord.settings_eq
      unfold Surroundings.synonymOfRecord Surroundings.enter Surroundings.heading
      rw [hsettings]
      rfl
    have habsorb := begun.gains_absorb (begun.surroundings.synonymOfRecord record node)
    have hregister := gains_register (begun.absorb (begun.surroundings.synonymOfRecord record node))
      (.synonym (begun.surroundings.synonymOfRecord record node).value)
    dsimp only
    rw [← List.singleton_append, ← hnoted]
    exact (hrecord.trans (habsorb.trans hregister)).finish

theorem gains_describe (session : Session) (node : Node) :
    session.Gains (session.submissions node) (session.describe node) := by
  cases hkind : node.kind with
  | interface =>
    simpa [describe, submissions, hkind, Noted.handsOver] using
      session.gains_workNamed .class_ node fun here => .class_ <$> here.interface node
  | protocol =>
    simpa [describe, submissions, hkind, Noted.handsOver] using
      session.gains_workNamed .protocol node fun here => .class_ <$> here.protocol node
  | category =>
    have hwork := session.gains_work ⟨.extension, ((Surroundings.extendedClass? node).map (·.name)).getD ""⟩
      fun here => Option.map .class_ <$> here.category? node
    simpa [describe, submissions, hkind, Noted.handsOver] using hwork
  | record kind =>
    simpa [describe, submissions, hkind] using session.gains_describeRecord kind node
  | enum =>
    by_cases hanonymous : Surroundings.isAnonymousEnum node = true
    · simpa [describe, submissions, hkind, hanonymous] using session.gains_describeConstants node
    · have hwork := session.gains_work ⟨.enum, node.name⟩ fun here => (some ∘ Entry.enum) <$> here.enum node
      simpa [describe, submissions, hkind, hanonymous, Noted.handsOver] using hwork
  | function =>
    simpa [describe, submissions, hkind, Noted.handsOver] using
      session.gains_workNamed .function node fun here => .function <$> here.function node
  | global =>
    simpa [describe, submissions, hkind, Noted.handsOver] using
      session.gains_workNamed .global node fun here => .global <$> here.global node
  | synonym =>
    rw [describe, hkind]
    exact session.gains_describeSynonym hkind
  | _ =>
    simp only [describe, submissions, hkind]
    exact .refl session

/-! ## What a walk hands over -/

/-- The entries that a declaration that is come upon hands over: none, unless it is described. -/
def handedOver (session : Session) (encounter : Encounter) : List Entry :=
  if encounter.treatment = .describe then session.submissions encounter.node else []

/-- The entries that a session hands over on its way along a list of declarations. -/
def history (session : Session) : List Encounter → List Entry
  | [] => []
  | encounter :: rest => session.handedOver encounter ++ (session.meet encounter).history rest

theorem submissions_dropPending (session : Session) {node : Node} (h : node.kind ≠ .synonym) :
    session.dropPending.submissions node = session.submissions node := by
  cases hkind : node.kind with
  | synonym => exact absurd hkind h
  | _ => simp only [submissions, hkind, surroundings_dropPending]

theorem gains_meet (session : Session) (encounter : Encounter) :
    session.Gains (session.handedOver encounter) (session.meet encounter) := by
  unfold meet handedOver
  cases encounter.treatment with
  | describe =>
    dsimp only
    by_cases hkind : encounter.node.kind = .synonym
    · rw [if_pos hkind, if_pos rfl]
      exact session.gains_describe encounter.node
    · rw [if_neg hkind, if_pos rfl, ← session.submissions_dropPending hkind]
      exact (session.dropPending.gains_describe encounter.node).of_start rfl rfl
  | skip | pass =>
    dsimp only
    rw [if_neg (by decide)]
    split
    · exact .refl session
    · exact .of_eq rfl rfl

/-- Along a list of declarations a session gains its history. -/
theorem gains_foldl_meet (session : Session) (encounters : List Encounter) :
    session.Gains (session.history encounters) (encounters.foldl meet session) := by
  induction encounters generalizing session with
  | nil => exact .refl session
  | cons encounter rest ih => exact (session.gains_meet encounter).trans (ih _)

end Session

/-- The entries that a run hands over, first to last, those that are left out included. -/
def surveyHistory (root : Node) (settings : Settings) : List Entry :=
  (Session.start settings).history (Node.encountersIn settings root.children)

/-- The registry of a run is the result of the entries handed over during it and kept. -/
theorem registry_survey (root : Node) (settings : Settings) :
    (survey root settings).registry =
      Registry.empty.registerAll ((surveyHistory root settings).filter settings.keeps) :=
  ((Session.start settings).gains_foldl_meet _).registry_eq

end HeaderCatalog
