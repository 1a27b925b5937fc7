import HeaderCatalog.Proofs.Describe.Complete
import HeaderCatalog.Proofs.Survey.Blocks
import HeaderCatalog.Proofs.Survey.Synonyms
import HeaderCatalog.Proofs.Survey.Waiting

set_option autoImplicit false

/-!
# Registered types say something

What is registered is used to resolve what comes later, and what is registered then has been resolved that way.  So
that every type in a registry is complete is an invariant of the session: one declaration keeps it (`IsComplete.meet`),
whatever it is, and a run starts with it.  The record that waits for its name belongs to the invariant, because it is
described before it is registered.
-/

namespace HeaderCatalog

/-- From complete entries only complete types are known. -/
theorem Registry.isComplete_lookup {registry : Registry} (h : ∀ entry ∈ registry.values, entry.IsComplete) :
    registry.lookup.IsComplete := by
  intro name type hknown
  obtain ⟨-, entry, hfind, rfl⟩ := entry_of_synonymType? hknown
  have hmem : .synonym entry ∈ registry.values := List.mem_map_of_mem (Named.find?_eq_some_iff.1 hfind)
  exact Entry.isComplete_synonym.1 (h _ hmem)

namespace Session

/-- Every entry of the session is complete, and so is the record that waits for its name. -/
structure IsComplete (session : Session) : Prop where
  registry : ∀ entry ∈ session.registry.values, entry.IsComplete
  pending : ∀ record ∈ session.pending, (Entry.record record).IsComplete

variable {session : Session}

/-- In a complete session, a declaration is described as complete entries. -/
theorem IsComplete.eachDescribed (h : session.IsComplete) (node : Node) :
    EachDescribed Entry.IsComplete session node :=
  have hlookup : session.surroundings.lookup.IsComplete := Registry.isComplete_lookup h.registry
  { interface := session.surroundings.isComplete_interface hlookup node
    protocol := session.surroundings.isComplete_protocol hlookup node
    category := session.surroundings.isComplete_category? hlookup node
    record := fun kind => session.surroundings.isComplete_record hlookup kind node
    enum := session.surroundings.isComplete_enum hlookup node
    constants := session.surroundings.isComplete_anonymousConstants hlookup node
    function := session.surroundings.isComplete_function hlookup node
    global := session.surroundings.isComplete_global hlookup node
    synonym := session.surroundings.isComplete_synonym hlookup node
    named := fun unnamed hunnamed =>
      have hrecord := unnamed.isComplete_rename (h.pending unnamed hunnamed) node.name
      ⟨hrecord, session.surroundings.isComplete_synonymOfRecord hrecord node⟩ }

theorem IsComplete.handedOver (h : session.IsComplete) (encounter : Encounter) :
    ∀ entry ∈ session.handedOver encounter, entry.IsComplete :=
  have hlookup : session.surroundings.lookup.IsComplete := Registry.isComplete_lookup h.registry
  (h.eachDescribed encounter.node).handedOver fun _ hblock =>
    (session.surroundings.enter encounter.node).value.isComplete_of_mem_met hlookup hblock

/-- One declaration: a complete session stays complete. -/
theorem IsComplete.meet (h : session.IsComplete) (encounter : Encounter) : (session.meet encounter).IsComplete where
  registry := by
    rw [(session.gains_meet encounter).registry_eq]
    refine Registry.forall_values_registerAll (P := Entry.IsComplete) ?_ h.registry fun entry hentry =>
      h.handedOver encounter entry (List.mem_filter.1 hentry).1
    -- Entries are stored as they are handed over, apart from the categories of one class, which are merged.
    intro earlier category hearlier hcategory
    rw [Entry.isComplete_class] at hearlier hcategory ⊢
    exact ClassEntry.forall_mem_members_merge hearlier hcategory
  pending := by
    intro record hrecord
    rcases pending_meet hrecord with ⟨-, hunnamed⟩ | ⟨-, -, hwaiting⟩
    · rw [hunnamed.described]
      exact session.surroundings.isComplete_record (Registry.isComplete_lookup h.registry) _ encounter.node
    · exact h.pending record hwaiting

/-- A walk: whatever is come upon, a complete session stays complete. -/
theorem IsComplete.foldl_meet (h : session.IsComplete) (encounters : List Encounter) :
    (encounters.foldl Session.meet session).IsComplete := by
  induction encounters generalizing session with
  | nil => exact h
  | cons encounter rest ih => exact ih (h.meet encounter)

theorem isComplete_start (settings : Settings) : (start settings).IsComplete := ⟨List.forall_mem_nil _, nofun⟩

end Session

/-- **Every registered type says something.**  After a run, all types stored in an entry have a name and an encoding, at
any depth, and no block and no record is without an encoding. -/
theorem isComplete_survey {root : Node} {settings : Settings} {entry : Entry}
    (h : entry ∈ (survey root settings).registry.values) : entry.IsComplete :=
  ((Session.isComplete_start settings).foldl_meet _).registry entry h

/-- A method that takes a block, and returns what only its encoding tells. -/
theorem isComplete_survey_loader :
    let completion : TypeHandle :=
      { kind := .blockPointer, spelling := "void (^)(Item)",
        pointee := some
          { kind := .function true, arguments := [{ kind := .sugar .synonym, spelling := "Item" }] } }
    let load : Node :=
      { kind := .instanceMethod, name := "load:", encoding := some "@24@0:8@?16",
        children := [{ kind := .parameter, name := "completion", type := some completion }] }
    let root : Node :=
      { kind := .unit, children := [{ kind := .interface, name := "Loader", children := [load] }] }
    (survey root {}).registry.values.map (·.name) = ["void (^)(Item)", "Loader"] ∧
      ∃ entry ∈ (survey root {}).registry.values, entry.name = "Loader" ∧ entry.IsComplete := by
  intro completion load root
  have hnames : (survey root {}).registry.values.map (·.name) = ["void (^)(Item)", "Loader"] := by decide +kernel
  have hmem : "Loader" ∈ (survey root {}).registry.values.map (·.name) := by
    rw [hnames]
    exact List.mem_cons_of_mem _ List.mem_cons_self
  obtain ⟨entry, hentry, hname⟩ := List.mem_map.1 hmem
  exact ⟨hnames, entry, hentry, hname, isComplete_survey hentry⟩

end HeaderCatalog
