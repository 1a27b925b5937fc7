import HeaderCatalog.Proofs.Session.Performs

set_option autoImplicit false

/-!
# What describing leaves alone

While a declaration is described, the session changes: it goes to the declaration, it comes to depend on further
frameworks, and blocks are registered, as many as are nested in the members of the declaration.  `Session.Frame` lists
what stays: the declaration being worked on and the last one, the unnamed record that waits, every collection but that of
the blocks, and every key.  Resolving a type changes even less, the dependencies alone (`Session.Refers`).

The frame is that of taking over notes (`Session.frame_absorb`), and describing in place has it because it comes to the
same, however the descriptions are nested in each other.
-/

namespace HeaderCatalog

/-! ## Collections of a registry -/

namespace Registry

/-- The collection of a kind: the entries under keys of that kind, in order, each with its key. -/
def collection (registry : Registry) (kind : EntryKind) : List (EntryKey × Entry) :=
  registry.entries.filter (·.1.kind = kind)

/-- In a registry with every entry under its own key, the entries of a collection are those of its kind. -/
theorem ofKind_eq_collection {registry : Registry} (h : registry.Keyed) (kind : EntryKind) :
    registry.ofKind kind = (registry.collection kind).map (·.2) := by
  have hkinds : ∀ pair ∈ registry.entries, (pair.2.kind = kind ↔ pair.1.kind = kind) := fun pair hpair => by
    rw [h pair hpair, Entry.kind_key]
  rw [ofKind, Named.values, collection, List.filter_map]
  exact congrArg _ (List.filter_congr fun pair hpair => decide_eq_decide.2 (hkinds pair hpair))

theorem collection_put (registry : Registry) {key : EntryKey} {kind : EntryKind} (h : key.kind ≠ kind)
    (entry : Entry) : Registry.collection (registry.put key entry) kind = registry.collection kind := by
  unfold collection Named.put
  split
  · -- An entry that is replaced belongs to the collection neither before nor behind.
    change (registry.entries.map fun pair => if pair.1 = key then (key, entry) else pair).filter (·.1.kind = kind) = _
    induction registry.entries with
    | nil => rfl
    | cons pair rest ih =>
      rw [List.map_cons, List.filter_cons, List.filter_cons, ih]
      by_cases hpair : pair.1 = key
      · simp [hpair, h]
      · simp [hpair]
  · simp [List.filter_append, h]

/-- Registering an entry leaves the collections of other kinds as they are. -/
theorem collection_register (registry : Registry) {entry : Entry} {kind : EntryKind} (h : entry.kind ≠ kind) :
    (registry.register entry).collection kind = registry.collection kind := by
  have hkey : entry.key.kind ≠ kind := by rwa [Entry.kind_key]
  by_cases hcategory : entry.kind = .extension
  · obtain ⟨category, rfl, hkind⟩ := exists_category hcategory
    rw [register_category registry hkind, collection_put registry hkey]
  · rw [register_eq_insert registry hcategory, Named.insert]
    split
    · exact collection_put registry hkey entry
    · rfl

theorem collection_registerAll {registry : Registry} {entries : List Entry} {kind : EntryKind}
    (h : ∀ entry ∈ entries, entry.kind ≠ kind) :
    (registry.registerAll entries).collection kind = registry.collection kind := by
  induction entries generalizing registry with
  | nil => rfl
  | cons entry rest ih =>
    have hrest : (registry.registerAll (entry :: rest)).collection kind = (registry.register entry).collection kind :=
      ih fun later hlater => h later (List.mem_cons_of_mem entry hlater)
    rw [hrest, collection_register registry (h entry List.mem_cons_self)]

/-- Keys stay, in their order; further ones come behind them. -/
theorem keys_prefix_registerAll (registry : Registry) (entries : List Entry) :
    registry.keys <+: (registry.registerAll entries).keys := by
  induction entries generalizing registry with
  | nil => exact List.prefix_refl _
  | cons entry rest ih =>
    refine List.IsPrefix.trans ?_ (ih (registry.register entry))
    rw [keys_register]
    split
    · exact List.prefix_refl _
    · exact List.prefix_append _ _

end Registry

namespace Session

/-! ## The frame -/

/-- What stays of a session while a declaration is described. -/
structure Frame (session next : Session) : Prop where
  settings_eq : next.settings = session.settings
  current_eq : next.current = session.current
  previous_eq : next.previous = session.previous
  pending_eq : next.pending = session.pending
  dependencies : session.dependencies ⊆ next.dependencies
  collection_eq : ∀ kind, kind ≠ .block → next.registry.collection kind = session.registry.collection kind
  keys : session.registry.keys <+: next.registry.keys

/-- A session differs from another one in its dependencies alone, and those have only become more. -/
structure Refers (session next : Session) : Prop where
  eq : next = { session with dependencies := next.dependencies }
  dependencies : session.dependencies ⊆ next.dependencies

/-- What is listed of a kind is the same behind a frame, if every entry stands under its own key. -/
theorem Frame.ofKind_eq {session next : Session} (h : session.Frame next) (hkeyed : session.registry.Keyed)
    (hnext : next.registry.Keyed) {kind : EntryKind} (hkind : kind ≠ .block) :
    next.registry.ofKind kind = session.registry.ofKind kind := by
  rw [Registry.ofKind_eq_collection hnext, Registry.ofKind_eq_collection hkeyed, h.collection_eq kind hkind]

theorem subset_foldl_depend (settings : Settings) (references : List Location) (dependencies : List String) :
    dependencies ⊆ references.foldl settings.depend dependencies :=
  fun _ hframework => Settings.mem_foldl_depend.2 (.inl hframework)

/-- Taking over notes registers blocks and nothing else. -/
theorem frame_absorb {α : Type} (session : Session) (noted : Noted α) : session.Frame (session.absorb noted) := by
  rw [absorb_eq]
  exact
    { settings_eq := rfl
      current_eq := rfl
      previous_eq := rfl
      pending_eq := rfl
      dependencies := subset_foldl_depend _ _ _
      collection_eq := fun kind hkind => Registry.collection_registerAll fun entry hentry => by
        rw [kind_of_mem_blocks hentry]
        exact hkind.symm
      keys := Registry.keys_prefix_registerAll _ _ }

/-- An entry that is not stored leaves the session as it is. -/
theorem register_of_not_stores {session : Session} {entry : Entry} (h : session.stores entry = false) :
    session.register entry = session := by
  unfold stores at h
  unfold register
  split
  · rfl
  · next hplace =>
    have htakes : session.registry.takes entry = false := by simpa [hplace] using h
    rw [Registry.register_of_not_takes htakes]

/-- Notes without a place and without blocks are references. -/
theorem refers_absorb {α : Type} (session : Session) {noted : Noted α} (hlocated : noted.located = none)
    (hblocks : noted.blocks = []) : session.Refers (session.absorb noted) := by
  rw [absorb_eq, hlocated, hblocks]
  exact ⟨rfl, subset_foldl_depend _ _ _⟩

end Session

namespace Working

/-- A question to a new resolver changes the dependencies alone. -/
theorem refers_ask {α : Type} (question : Lookup → Resolving α) (session : Session) :
    session.Refers ((ask question).run session).2 := by
  rw [(performsThere_ask question).performs session rfl]
  exact session.refers_absorb rfl rfl

/-- **What describing leaves alone.**  Resolving a type, the type of a field, a signature or an encoding changes the
dependencies alone, and they only become more.  Describing a node, whichever way, yields what the description in the
surroundings of the session yields and takes over its notes; it leaves alone all that `Session.Frame` lists; and so it
is if an entry is handed in afterwards and not stored. -/
theorem frame_build (session : Session) :
    (∀ hint handle, session.Refers ((type hint handle).run session).2) ∧
    (∀ hint handle, session.Refers ((memberType hint handle).run session).2) ∧
    (∀ callable, session.Refers ((signature callable).run session).2) ∧
    (∀ encoding, ((encoded encoding).run session).2 = session) ∧
    ∀ node kind,
      let (entries, next) := (build node kind).run session
      let noted := session.surroundings.build node kind
      entries = noted.value ∧ next = session.absorb noted ∧ session.Frame next ∧
        ∀ entry, next.stores entry = false → session.Frame (next.register entry) := by
  refine ⟨fun hint handle => refers_ask _ session, fun hint handle => refers_ask _ session,
    fun callable => refers_ask _ session, fun encoding => rfl, fun node kind => ?_⟩
  rw [performs_build node kind session rfl]
  have hframe := session.frame_absorb (session.surroundings.build node kind)
  refine ⟨rfl, rfl, hframe, fun entry hstores => ?_⟩
  rw [Session.register_of_not_stores hstores]
  exact hframe

/-- An enumeration is declared again without its constants, with a type of another framework: the framework becomes a
dependency, and the enumeration stays what it was. -/
theorem frame_build_forward_enum :
    let quality : Entry :=
      .enum { heading := ⟨"Quality", .enum, .unresolved, none⟩, type := ⟨"int", "int", ['i']⟩, cases := [⟨"Low", 0⟩] }
    let session := (Session.start {}).register quality
    let forward : Node :=
      { kind := .enum, name := "Quality",
        type := some
          { kind := .scalar .long, spelling := "NSInteger",
            declaration := some ⟨"/Library/Foundation.framework/Headers/NSObjCRuntime.h", 1⟩ } }
    let (entries, next) := (build forward .enum).run session
    entries.map (·.name) = ["Quality"] ∧ next.dependencies = ["Foundation"] ∧
      ∀ entry ∈ entries, next.stores entry = false ∧ session.Frame (next.register entry) := by
  intro quality session forward
  obtain ⟨-, -, -, hframe⟩ := (frame_build session).2.2.2.2 forward .enum
  have hrejected : ∀ entry ∈ ((build forward .enum).run session).1,
      ((build forward .enum).run session).2.stores entry = false := by decide +kernel
  refine ⟨by decide +kernel, by decide +kernel, fun entry hentry => ?_⟩
  exact ⟨hrejected entry hentry, hframe entry (hrejected entry hentry)⟩

end Working

end HeaderCatalog
