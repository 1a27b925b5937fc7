import HeaderCatalog.Proofs.Registry.History

set_option autoImplicit false

/-!
# Entries and registries that agree with themselves

An entry stores some things twice: its heading says of what kind it is, a block has its spelling both as its name and
as its signature, and a record has an encoding next to the name and the fields that it is put together from.
`Entry.Coherent` says that these agree, which nothing but the way in which entries are made sees to.

A registry is one list of entries under keys, and its collections, their names and the two ways of finding an entry
are all read off that list.  `Registry.Coherent` says that they agree: what is found by a name has that name and is
listed under it, and no name is listed twice.  Blocks are found by framework and signature, and listed by framework.

Every registry that comes of a history of coherent entries is coherent (`coherent_registerAll`), because every entry
stands under its own key whatever was registered or merged.  Its heading, too, is one that was registered
(`exists_heading_registerAll`).
-/

namespace HeaderCatalog

theorem nodup_eraseDups {κ : Type} [DecidableEq κ] (keys : List κ) : keys.eraseDups.Nodup := by
  induction keys using List.reverseRecOn with
  | nil => exact List.nodup_nil
  | append_singleton keys key ih =>
    rw [eraseDups_concat]
    split
    case isTrue => exact ih
    case isFalse hnew =>
      refine List.nodup_append.2 ⟨ih, by simp, fun earlier hearlier last hlast heq => hnew ?_⟩
      rw [List.mem_singleton] at hlast
      rwa [← hlast, ← heq, ← List.mem_eraseDups]

theorem lookup_eq_some_iff_mem {κ α : Type} [DecidableEq κ] {entries : List (κ × α)}
    (h : (entries.map (·.1)).Nodup) {key : κ} {value : α} :
    entries.lookup key = some value ↔ (key, value) ∈ entries := by
  induction entries with
  | nil => simp
  | cons entry rest ih =>
    obtain ⟨first, found⟩ := entry
    obtain ⟨hnew, hrest⟩ := List.nodup_cons.1 h
    rw [List.lookup_cons, List.mem_cons]
    by_cases hkey : key = first
    · subst hkey
      have hothers : (key, value) ∉ rest := fun hmem => hnew (List.mem_map.2 ⟨_, hmem, rfl⟩)
      simp [hothers, eq_comm]
    · have hne : (key == first) = false := by simpa using hkey
      simp [hne, hkey, ih hrest]

/-- There is exactly one entry under a key. -/
theorem Named.find?_eq_some_iff {κ α : Type} [DecidableEq κ] {c : Named κ α} {key : κ} {value : α} :
    c.find? key = some value ↔ (key, value) ∈ c.entries :=
  lookup_eq_some_iff_mem c.distinct

/-! ## Coherent entries -/

/-- The encoding of a record with a name and fields.  Between the brackets of its kind stand the name, or a question
mark if it stands for none, and the encodings of the fields behind an equals sign, if there are any. -/
def RecordKind.encodingOf (kind : RecordKind) (name : String) (fields : List Field) : Encoding :=
  let shown := if Naming.isAnonymous name then ['?'] else name.toList
  let members := if fields = [] then [] else '=' :: fields.flatMap (·.type.encoding)
  kind.opening :: (shown ++ members) ++ [kind.closing]

/-- An entry that says the same of itself wherever it says it. -/
structure Entry.Coherent (entry : Entry) : Prop where
  /-- Its heading has the kind that it is registered as. -/
  kind : entry.heading.kind = entry.kind
  /-- A block is named by its signature, -/
  signature : ∀ block, entry = .block block → block.heading.name = block.signature
  /-- and the encoding of a record is that of its name and its fields. -/
  encoding : ∀ record, entry = .record record →
    record.encoding = record.kind.encodingOf record.heading.name record.fields

/-- Putting the encoding of a record together gives the one of its name and its fields. -/
theorem RecordEntry.encoding_encoded (entry : RecordEntry) :
    entry.encoded.encoding = entry.kind.encodingOf entry.heading.name entry.fields := by
  have hshown : (if entry.isAnonymous then "?" else entry.heading.name).toList =
      if Naming.isAnonymous entry.heading.name then ['?'] else entry.heading.name.toList :=
    apply_ite String.toList _ _ _
  unfold encoded RecordKind.encodingOf Encoding.record
  dsimp only
  rw [hshown]
  cases hfields : entry.fields with
  | nil => simp
  | cons field rest => simp [memberEncodings, hfields, List.flatMap_def]

namespace Entry

/-- Apart from blocks and records, an entry is coherent if its heading has the kind that it is registered as. -/
theorem Coherent.of_kind {entry : Entry} (hkind : entry.heading.kind = entry.kind)
    (hblock : ∀ block, entry ≠ .block block) (hrecord : ∀ record, entry ≠ .record record) : entry.Coherent :=
  ⟨hkind, fun block heq => absurd heq (hblock block), fun record heq => absurd heq (hrecord record)⟩

theorem coherent_class {entry : ClassEntry} (h : entry.heading.kind = entry.kind.entryKind) :
    (Entry.class_ entry).Coherent :=
  .of_kind h nofun nofun

theorem coherent_block {block : Block} (hkind : block.heading.kind = .block)
    (hname : block.heading.name = block.signature) : (Entry.block block).Coherent := by
  refine ⟨hkind, ?_, nofun⟩
  rintro _ ⟨⟩
  exact hname

/-- A record is coherent once its encoding has been put together. -/
theorem coherent_encoded {entry : RecordEntry} (h : entry.heading.kind = .record entry.kind) :
    (Entry.record entry.encoded).Coherent := by
  refine ⟨h, nofun, ?_⟩
  rintro _ ⟨⟩
  exact entry.encoding_encoded

/-- A record stays coherent under another name, because its encoding is put together anew. -/
theorem Coherent.rename {entry : RecordEntry} (h : (Entry.record entry).Coherent) (name : String) :
    (Entry.record (entry.rename name)).Coherent :=
  coherent_encoded h.kind

/-- Merging keeps the heading of the category that was there first. -/
theorem Coherent.merge {earlier : ClassEntry} (h : (Entry.class_ earlier).Coherent) (category : ClassEntry) :
    (Entry.class_ (earlier.merge category)).Coherent :=
  coherent_class h.kind

/-- What a coherent entry is registered under is read off its heading. -/
theorem Coherent.key_eq {entry : Entry} (h : entry.Coherent) :
    entry.key = ⟨entry.heading.kind, if entry.heading.kind = .block then entry.heading.source.framework else "",
      entry.heading.name⟩ := by
  rw [h.kind]
  by_cases hkind : entry.kind = .block
  · obtain ⟨block, rfl⟩ := exists_block hkind
    have hname : block.heading.name = block.signature := h.signature block rfl
    rw [if_pos hkind, hkind, heading, hname]
    rfl
  · rw [Entry.key_eq hkind, if_neg hkind, name]

theorem Coherent.name_key {entry : Entry} (h : entry.Coherent) : entry.key.name = entry.name := by
  rw [h.key_eq, name]

end Entry

namespace Registry

variable {registry : Registry}

/-! ## Finding and listing -/

theorem mem_values_iff (h : registry.Keyed) {entry : Entry} :
    entry ∈ registry.values ↔ registry.find? entry.key = some entry := by
  rw [Named.find?_eq_some_iff]
  constructor
  · intro hmem
    obtain ⟨⟨key, found⟩, hpair, rfl⟩ := List.mem_map.1 hmem
    have hkey : key = found.key := h _ hpair
    rwa [← hkey]
  · exact List.mem_map_of_mem

/-- Apart from blocks, an entry is found by a name exactly if it is listed under that name. -/
theorem entry?_eq_some_iff (h : registry.Keyed) {kind : EntryKind} (hkind : kind ≠ .block) {name : String}
    {entry : Entry} : registry.entry? kind name = some entry ↔ entry ∈ registry.ofKind kind ∧ entry.name = name := by
  unfold entry? ofKind
  rw [List.mem_filter, mem_values_iff h, decide_eq_true_eq]
  constructor
  · intro hfind
    have hkey : { kind, name } = entry.key := h _ (Named.find?_eq_some_iff.1 hfind)
    have hentry : kind = entry.kind := (congrArg EntryKey.kind hkey).trans entry.kind_key
    have hname : name = entry.name := (congrArg EntryKey.name hkey).trans (Entry.name_key (hentry ▸ hkind))
    rw [← hkey]
    exact ⟨⟨hfind, hentry.symm⟩, hname.symm⟩
  · rintro ⟨⟨hfind, rfl⟩, rfl⟩
    rwa [← Entry.key_eq hkind]

theorem mem_blocks_iff {block : Block} : block ∈ registry.blocks ↔ .block block ∈ registry.values := by
  unfold blocks
  rw [List.mem_filterMap]
  constructor
  · rintro ⟨entry, hmem, hblock⟩
    cases entry with
    | block found =>
      cases hblock
      exact hmem
    | _ => cases hblock
  · exact fun hmem => ⟨_, hmem, rfl⟩

theorem block?_eq_some {framework signature : String} {block : Block} :
    registry.block? framework signature = some block ↔
      registry.find? ⟨.block, framework, signature⟩ = some (.block block) := by
  unfold block?
  constructor
  · intro h
    split at h
    case h_1 found hfound =>
      cases h
      exact hfound
    case h_2 => cases h
  · intro h
    rw [h]

/-- A block is found by framework and signature exactly if it is listed with the framework under the signature. -/
theorem block?_eq_some_iff (h : registry.Keyed) {framework signature : String} {block : Block} :
    registry.block? framework signature = some block ↔
      block ∈ registry.blocksOf framework ∧ block.signature = signature := by
  unfold blocksOf
  rw [block?_eq_some, List.mem_filter, mem_blocks_iff, mem_values_iff h, decide_eq_true_eq]
  constructor
  · intro hfind
    have hkey : (⟨.block, framework, signature⟩ : EntryKey) = ⟨.block, block.framework, block.signature⟩ :=
      h _ (Named.find?_eq_some_iff.1 hfind)
    obtain ⟨-, rfl, rfl⟩ := EntryKey.mk.inj hkey
    exact ⟨⟨hfind, rfl⟩, rfl⟩
  · rintro ⟨⟨hfind, rfl⟩, rfl⟩
    exact hfind

theorem blocksOf_ne_nil {framework : String} (h : framework ∈ registry.blockFrameworks) :
    registry.blocksOf framework ≠ [] := by
  obtain ⟨block, hmem, rfl⟩ := List.mem_map.1 (List.mem_eraseDups.1 h)
  exact List.ne_nil_of_mem (List.mem_filter.2 ⟨hmem, by simp⟩)

/-- The signatures of a framework are those of its keys. -/
theorem mem_signatures_iff (h : registry.Keyed) {framework signature : String} :
    signature ∈ (registry.blocksOf framework).map (·.signature) ↔ ⟨.block, framework, signature⟩ ∈ registry.keys := by
  have hkeys : (⟨.block, framework, signature⟩ : EntryKey) ∈ registry.keys ↔
      ∃ block ∈ registry.blocks, (Entry.block block).key = ⟨.block, framework, signature⟩ := by
    rw [← List.mem_map, map_key_blocks h, List.mem_filter]
    simp
  rw [hkeys]
  simp [blocksOf, Entry.key, and_assoc]

/-! ## Entries that stay -/

/-- What stands in a registry after one more entry: what stood there, the entry itself, or, for a category, the two
together. -/
theorem mem_values_register {registry : Registry} {added entry : Entry}
    (h : entry ∈ (registry.register added).values) :
    entry ∈ registry.values ∨ entry = added ∨ ∃ earlier category, .class_ earlier ∈ registry.values ∧
      added = .class_ category ∧ entry = .class_ (earlier.merge category) := by
  obtain ⟨pair, hpair, rfl⟩ := List.mem_map.1 h
  by_cases hkind : added.kind = .extension
  · obtain ⟨category, rfl, hcategory⟩ := exists_category hkind
    rw [register_category registry hcategory] at hpair
    rcases Named.mem_entries_put hpair with hold | rfl
    · exact Or.inl (List.mem_map_of_mem hold)
    · unfold merged
      split
      · next earlier hfind =>
        have hmem := Named.find?_eq_some_iff.1 hfind
        exact Or.inr (Or.inr ⟨earlier, category, List.mem_map_of_mem hmem, rfl, rfl⟩)
      · exact Or.inr (Or.inl rfl)
  · rw [register_eq_insert registry hkind] at hpair
    unfold Named.insert at hpair
    split at hpair
    · rcases Named.mem_entries_put hpair with hold | rfl
      · exact Or.inl (List.mem_map_of_mem hold)
      · exact Or.inr (Or.inl rfl)
    · exact Or.inl (List.mem_map_of_mem hpair)

/-- Registering gives no entry a new heading: categories that are merged keep the heading that was there. -/
theorem exists_heading_register {registry : Registry} {added entry : Entry}
    (h : entry ∈ (registry.register added).values) :
    ∃ origin, (origin ∈ registry.values ∨ origin = added) ∧ entry.heading = origin.heading := by
  rcases mem_values_register h with hold | rfl | ⟨earlier, category, hearlier, -, rfl⟩
  · exact ⟨entry, Or.inl hold, rfl⟩
  · exact ⟨entry, Or.inr rfl, rfl⟩
  · exact ⟨.class_ earlier, Or.inl hearlier, rfl⟩

theorem exists_heading_registerAll {registry : Registry} {added : List Entry} {entry : Entry}
    (h : entry ∈ (registry.registerAll added).values) :
    ∃ origin, (origin ∈ registry.values ∨ origin ∈ added) ∧ entry.heading = origin.heading := by
  induction added generalizing registry with
  | nil => exact ⟨entry, Or.inl h, rfl⟩
  | cons first rest ih =>
    obtain ⟨later, hlater | hlater, hheading⟩ := ih h
    · obtain ⟨origin, hold | rfl, heq⟩ := exists_heading_register hlater
      · exact ⟨origin, Or.inl hold, hheading.trans heq⟩
      · exact ⟨origin, Or.inr List.mem_cons_self, hheading.trans heq⟩
    · exact ⟨later, Or.inr (List.mem_cons_of_mem first hlater), hheading⟩

/-- What holds of the entries of a registry and of those that are added, and is kept by merging categories, holds of all
entries afterwards. -/
theorem forall_values_registerAll {registry : Registry} {P : Entry → Prop}
    (hmerge : ∀ earlier category : ClassEntry, P (.class_ earlier) → P (.class_ category) →
      P (.class_ (earlier.merge category)))
    (h : ∀ entry ∈ registry.values, P entry) {added : List Entry} (hadded : ∀ entry ∈ added, P entry) :
    ∀ entry ∈ (registry.registerAll added).values, P entry := by
  induction added generalizing registry with
  | nil => exact h
  | cons first rest ih =>
    obtain ⟨hfirst, hrest⟩ := List.forall_mem_cons.1 hadded
    refine ih (fun entry hentry => ?_) hrest
    rcases mem_values_register hentry with hold | rfl | ⟨earlier, category, hearlier, rfl, rfl⟩
    · exact h entry hold
    · exact hfirst
    · exact hmerge earlier category (h _ hearlier) hfirst

/-! ## Coherent registries -/

/-- A registry whose collections agree with each other. -/
structure Coherent (registry : Registry) : Prop where
  /-- An entry says the same of itself wherever it says it, and this is what it is stored under: -/
  entries : ∀ pair ∈ registry.entries, pair.2.Coherent
  /-- its kind and its name are those of the key, -/
  stored : ∀ pair ∈ registry.entries, pair.2.heading.kind = pair.1.kind ∧ pair.2.kind = pair.1.kind ∧
    pair.2.heading.name = pair.1.name
  /-- and the framework and the signature of a block are those of the key. -/
  storedBlock : ∀ key block, (key, .block block) ∈ registry.entries →
    block.framework = key.framework ∧ block.signature = key.name
  /-- A name finds the entry that is listed under it, and nothing else. -/
  found : ∀ (kind : EntryKind) (name : String) (entry : Entry), kind ≠ .block →
    (registry.entry? kind name = some entry ↔ entry ∈ registry.ofKind kind ∧ entry.name = name)
  /-- No name is listed twice in a collection. -/
  names_nodup : ∀ kind : EntryKind, kind ≠ .block → (registry.names kind).Nodup
  /-- A signature finds the block that its framework lists under it, and nothing else. -/
  blockFound : ∀ (framework signature : String) (block : Block),
    registry.block? framework signature = some block ↔
      block ∈ registry.blocksOf framework ∧ block.signature = signature
  /-- Blocks stand in the framework that lists them. -/
  blockFramework : ∀ (framework : String), ∀ block ∈ registry.blocksOf framework, block.framework = framework
  /-- A framework that is listed has blocks, -/
  blocks_ne_nil : ∀ framework ∈ registry.blockFrameworks, registry.blocksOf framework ≠ []
  /-- it is listed once, -/
  frameworks_nodup : registry.blockFrameworks.Nodup
  /-- and so are its signatures. -/
  signatures_nodup : ∀ framework : String, ((registry.blocksOf framework).map (·.signature)).Nodup

/-- The names of a collection are those of its keys. -/
theorem Coherent.mem_names_iff (h : registry.Coherent) {kind : EntryKind} {name : String} :
    name ∈ registry.names kind ↔ ∃ key ∈ registry.keys, key.kind = kind ∧ key.name = name := by
  simp only [names, ofKind, Named.keys, Named.values, List.mem_map, List.mem_filter, decide_eq_true_eq]
  constructor
  · rintro ⟨_, ⟨⟨pair, hpair, rfl⟩, rfl⟩, rfl⟩
    obtain ⟨-, hkind, hname⟩ := h.stored pair hpair
    exact ⟨pair.1, ⟨pair, hpair, rfl⟩, hkind.symm, hname.symm⟩
  · rintro ⟨_, ⟨pair, hpair, rfl⟩, rfl, rfl⟩
    obtain ⟨-, hkind, hname⟩ := h.stored pair hpair
    exact ⟨pair.2, ⟨⟨pair, hpair, rfl⟩, hkind⟩, hname⟩

/-- Of coherent entries, only coherent ones come to be registered. -/
theorem coherent_of_mem_registerAll {history : List Entry} (h : ∀ entry ∈ history, entry.Coherent) :
    ∀ entry ∈ (empty.registerAll history).values, entry.Coherent :=
  forall_values_registerAll (fun _ category hearlier _ => hearlier.merge category) (List.forall_mem_nil _) h

/-- Whatever coherent entries are registered, in whatever order, the collections agree with each other. -/
theorem coherent_registerAll {history : List Entry} (h : ∀ entry ∈ history, entry.Coherent) :
    (empty.registerAll history).Coherent where
  entries pair hpair := coherent_of_mem_registerAll h pair.2 (List.mem_map_of_mem hpair)
  stored pair hpair := by
    have hentry := coherent_of_mem_registerAll h pair.2 (List.mem_map_of_mem hpair)
    rw [keyed_registerAll history pair hpair, hentry.kind, Entry.kind_key, hentry.name_key]
    exact ⟨rfl, rfl, rfl⟩
  storedBlock key block hpair := by
    obtain rfl : key = (Entry.block block).key := keyed_registerAll history _ hpair
    exact ⟨rfl, rfl⟩
  found _ _ _ hkind := entry?_eq_some_iff (keyed_registerAll history) hkind
  names_nodup kind hkind := by
    rw [names_registerAll history hkind]
    exact nodup_eraseDups _
  blockFound _ _ _ := block?_eq_some_iff (keyed_registerAll history)
  blockFramework _ block hblock := by simpa using (List.mem_filter.1 hblock).2
  blocks_ne_nil _ := blocksOf_ne_nil
  frameworks_nodup := nodup_eraseDups _
  signatures_nodup framework := by
    rw [blocksOf_registerAll]
    exact nodup_eraseDups _

end Registry

end HeaderCatalog
