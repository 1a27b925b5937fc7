import HeaderCatalog.Proofs.Registry.Keys

set_option autoImplicit false

/-!
# Registries and histories

A registry is the result of a history: the entries registered so far, first to last.  `settled` says which entry of a
history is the one that stays, without mentioning a registry, and `Shows` what a registry has to look like after a
history.  `shows_registerAll` proves it for every history, and `register_after_history` adds what the next call does.

The categories of one class are merged and not replaced, so what stands under the key of an extension is not said here.
-/

namespace HeaderCatalog

/-! ## What a history leaves -/

/-- The entry that stays after entries of one key have been registered: the last one that carries information, or,
if none does, the last one. -/
def settled (entries : List Entry) : Option Entry :=
  (entries.filter (·.carriesInformation)).getLast?.or entries.getLast?

/-- One more entry stays, unless it carries no information and the one that is there does. -/
theorem settled_concat (entries : List Entry) (entry : Entry) :
    settled (entries ++ [entry]) =
      if entry.carriesInformation = false ∧ ∃ earlier ∈ entries, earlier.carriesInformation = true
      then settled entries else some entry := by
  unfold settled
  rw [List.filter_append, List.getLast?_concat]
  by_cases hentry : entry.carriesInformation = true
  · rw [List.filter_cons_of_pos hentry, List.filter_nil, List.getLast?_concat, Option.some_or]
    simp [hentry]
  · rw [List.filter_cons_of_neg hentry, List.filter_nil, List.append_nil]
    by_cases hearlier : ∃ earlier ∈ entries, earlier.carriesInformation = true
    · obtain ⟨earlier, hmem, hinfo⟩ := hearlier
      have hne : entries.filter (·.carriesInformation) ≠ [] :=
        List.ne_nil_of_mem (List.mem_filter.2 ⟨hmem, hinfo⟩)
      rw [if_pos ⟨by simpa using hentry, earlier, hmem, hinfo⟩, List.getLast?_eq_some_getLast hne, Option.some_or,
        Option.some_or]
    · have hnil : entries.filter (·.carriesInformation) = [] := by
        rw [List.filter_eq_nil_iff]
        exact fun earlier hmem hinfo => hearlier ⟨earlier, hmem, hinfo⟩
      rw [if_neg (fun h => hearlier h.2), hnil, List.getLast?_nil, Option.none_or]

theorem mem_of_settled {entries : List Entry} {entry : Entry} (h : settled entries = some entry) : entry ∈ entries := by
  rcases Option.or_eq_some_iff.1 h with hlast | ⟨-, hlast⟩
  · exact (List.mem_filter.1 (List.mem_of_getLast? hlast)).1
  · exact List.mem_of_getLast? hlast

theorem carriesInformation_of_settled {entries : List Entry} {entry : Entry} (h : settled entries = some entry) :
    entry.carriesInformation = true ↔ ∃ earlier ∈ entries, earlier.carriesInformation = true := by
  refine ⟨fun hinfo => ⟨entry, mem_of_settled h, hinfo⟩, ?_⟩
  rintro ⟨earlier, hearlier, hinfo⟩
  rcases Option.or_eq_some_iff.1 h with hlast | ⟨hnone, -⟩
  · exact (List.mem_filter.1 (List.mem_of_getLast? hlast)).2
  · rw [List.getLast?_eq_none_iff, List.filter_eq_nil_iff] at hnone
    exact absurd hinfo (hnone earlier hearlier)

theorem settled_eq_none_iff {entries : List Entry} : settled entries = none ↔ entries = [] := by
  unfold settled
  rw [Option.or_eq_none_iff, List.getLast?_eq_none_iff, List.getLast?_eq_none_iff]
  refine ⟨fun h => h.2, ?_⟩
  rintro rfl
  exact ⟨rfl, rfl⟩

namespace Registry

/-- A registry after further entries, first to last. -/
def registerAll (registry : Registry) (entries : List Entry) : Registry := entries.foldl register registry

@[simp] theorem registerAll_nil (registry : Registry) : registry.registerAll [] = registry := rfl

theorem registerAll_append (registry : Registry) (first second : List Entry) :
    registry.registerAll (first ++ second) = (registry.registerAll first).registerAll second :=
  List.foldl_append

theorem registerAll_concat (registry : Registry) (entries : List Entry) (entry : Entry) :
    registry.registerAll (entries ++ [entry]) = (registry.registerAll entries).register entry :=
  registerAll_append registry entries [entry]

/-- Resolution learns nothing of entries that are neither records nor typedefs. -/
theorem lookup_registerAll {registry : Registry} {entries : List Entry}
    (hrecord : ∀ entry ∈ entries, ∀ kind, entry.kind ≠ .record kind)
    (hsynonym : ∀ entry ∈ entries, entry.kind ≠ .synonym) :
    (registry.registerAll entries).lookup = registry.lookup := by
  induction entries using List.reverseRecOn with
  | nil => rfl
  | append_singleton entries entry ih =>
    have hlast : entry ∈ entries ++ [entry] := List.mem_append_right _ List.mem_cons_self
    rw [registerAll_concat, lookup_register _ (hrecord entry hlast) (hsynonym entry hlast)]
    exact ih (fun other hother => hrecord other (List.mem_append_left _ hother))
      fun other hother => hsynonym other (List.mem_append_left _ hother)

theorem keyed_registerAll (history : List Entry) : (empty.registerAll history).Keyed := by
  induction history using List.reverseRecOn with
  | nil => exact keyed_empty
  | append_singleton history entry ih =>
    rw [registerAll_concat]
    exact keyed_register ih entry

theorem keys_registerAll (history : List Entry) :
    (empty.registerAll history).keys = (history.map (·.key)).eraseDups := by
  induction history using List.reverseRecOn with
  | nil => rfl
  | append_singleton history entry ih =>
    rw [registerAll_concat, keys_register, ih, List.map_append, List.map_singleton, eraseDups_concat]
    simp only [List.mem_eraseDups]

theorem mem_keys_registerAll {history : List Entry} {key : EntryKey} :
    key ∈ (empty.registerAll history).keys ↔ ∃ entry ∈ history, entry.key = key := by
  rw [keys_registerAll, List.mem_eraseDups, List.mem_map]

/-! ## What stands under a key -/

/-- After a history, a category apart, an entry is refused exactly when it says nothing and one under its key does. -/
theorem accepts_of_settled {registry : Registry} {key : EntryKey} {entries : List Entry}
    (h : registry.find? key = settled entries) (entry : Entry) :
    registry.accepts key entry = false ↔
      entry.carriesInformation = false ∧ ∃ earlier ∈ entries, earlier.carriesInformation = true := by
  unfold Named.accepts
  rw [h]
  cases hsettled : settled entries with
  | none =>
    rw [settled_eq_none_iff] at hsettled
    simp [hsettled]
  | some earlier =>
    rw [← carriesInformation_of_settled hsettled]
    simp [isInformative, and_comm]

/-- Under every key but that of an extension stands what its entries leave. -/
theorem find?_registerAll (history : List Entry) {key : EntryKey} (h : key.kind ≠ .extension) :
    (empty.registerAll history).find? key = settled (history.filter (·.key = key)) := by
  induction history using List.reverseRecOn with
  | nil => rfl
  | append_singleton history entry ih =>
    rw [registerAll_concat, List.filter_append]
    by_cases hkey : entry.key = key
    · have hkind : entry.kind ≠ .extension := by rwa [← Entry.kind_key, hkey]
      rw [List.filter_cons_of_pos (by simpa using hkey), List.filter_nil, settled_concat,
        register_eq_insert _ hkind, Named.find?_insert, hkey, ih]
      by_cases haccepts : (empty.registerAll history).accepts key entry = true
      · have hnot := mt (accepts_of_settled ih entry).2 (by simp [haccepts])
        rw [if_pos ⟨rfl, haccepts⟩, if_neg hnot]
      · rw [if_neg (fun hand => haccepts hand.2),
          if_pos ((accepts_of_settled ih entry).1 (by simpa using haccepts))]
    · rw [List.filter_cons_of_neg (by simpa using hkey), List.filter_nil, List.append_nil,
        find?_register_of_ne _ (Ne.symm hkey), ih]

/-! ## What the collections list -/

/-- The keys of the blocks of a history, repetitions included. -/
def blockKeys (history : List Entry) : List EntryKey := (history.map (·.key)).filter (·.kind = .block)

/-- The names of a collection in order of first mention. -/
theorem names_registerAll (history : List Entry) {kind : EntryKind} (h : kind ≠ .block) :
    (empty.registerAll history).names kind = ((history.filter (·.kind = kind)).map (·.name)).eraseDups := by
  rw [names_eq (keyed_registerAll history) h, keys_registerAll, filter_eraseDups, map_eraseDups_of_injOn,
    Entry.map_name_keys history h]
  intro first hfirst second hsecond hname
  obtain ⟨hfirstMem, hfirstKind⟩ := List.mem_filter.1 hfirst
  obtain ⟨hsecondMem, hsecondKind⟩ := List.mem_filter.1 hsecond
  obtain ⟨firstEntry, -, rfl⟩ := List.mem_map.1 hfirstMem
  obtain ⟨secondEntry, -, rfl⟩ := List.mem_map.1 hsecondMem
  have hfirstEntry : firstEntry.kind = kind := by simpa using hfirstKind
  have hsecondEntry : secondEntry.kind = kind := by simpa using hsecondKind
  rw [Entry.name_key (hfirstEntry ▸ h), Entry.name_key (hsecondEntry ▸ h)] at hname
  exact (Entry.key_eq_iff (hfirstEntry ▸ h)).2 ⟨hfirstEntry.trans hsecondEntry.symm, hname⟩

theorem map_key_blocks {registry : Registry} (h : registry.Keyed) :
    registry.blocks.map (fun block => (Entry.block block).key) = registry.keys.filter (·.kind = .block) := by
  rw [keys_eq h]
  unfold blocks
  induction registry.values with
  | nil => rfl
  | cons entry rest ih =>
    cases entry with
    | class_ category => cases hkind : category.kind <;> simpa [Entry.kind, hkind, ClassKind.entryKind] using ih
    | _ => simpa [Entry.kind] using ih

theorem map_key_blocks_registerAll (history : List Entry) :
    (empty.registerAll history).blocks.map (fun block => (Entry.block block).key) =
      (blockKeys history).eraseDups := by
  rw [map_key_blocks (keyed_registerAll history), keys_registerAll, filter_eraseDups, blockKeys]

theorem blockFrameworks_registerAll (history : List Entry) :
    (empty.registerAll history).blockFrameworks = ((blockKeys history).map (·.framework)).eraseDups := by
  have hframeworks : (empty.registerAll history).blocks.map (·.framework) =
      (blockKeys history).eraseDups.map (·.framework) := by
    rw [← map_key_blocks_registerAll, List.map_map]
    rfl
  rw [blockFrameworks, hframeworks, eraseDups_map_eraseDups]

theorem blocksOf_registerAll (history : List Entry) (framework : String) :
    ((empty.registerAll history).blocksOf framework).map (·.signature) =
      (((blockKeys history).filter (·.framework = framework)).map (·.name)).eraseDups := by
  have hsignatures : ((empty.registerAll history).blocksOf framework).map (·.signature) =
      ((blockKeys history).eraseDups.filter (·.framework = framework)).map (·.name) := by
    rw [← map_key_blocks_registerAll, List.filter_map, List.map_map]
    rfl
  rw [hsignatures, filter_eraseDups, map_eraseDups_of_injOn]
  intro first hfirst second hsecond hname
  have hblock : ∀ key ∈ (blockKeys history).filter (·.framework = framework),
      key.kind = .block ∧ key.framework = framework := by
    intro key hkey
    obtain ⟨hmem, hframework⟩ := List.mem_filter.1 hkey
    exact ⟨by simpa using (List.mem_filter.1 hmem).2, by simpa using hframework⟩
  obtain ⟨hfirstKind, hfirstFramework⟩ := hblock first hfirst
  obtain ⟨hsecondKind, hsecondFramework⟩ := hblock second hsecond
  cases first
  cases second
  simp_all

/-! ## The law of histories -/

/-- What a registry shows after a history.  Categories of a class are merged, so what stands under the key of an
extension is left open; everything else holds of extensions as well. -/
structure Shows (registry : Registry) (history : List Entry) : Prop where
  /-- Under a key stands what the entries of that key leave. -/
  find?_eq : ∀ key : EntryKey, key.kind ≠ .extension →
    registry.find? key = settled (history.filter (·.key = key))
  /-- A collection lists its names in the order they were first registered in, each once. -/
  names_eq : ∀ kind : EntryKind, kind ≠ .block →
    registry.names kind = ((history.filter (·.kind = kind)).map (·.name)).eraseDups
  /-- So do the blocks with their frameworks, -/
  blockFrameworks_eq : registry.blockFrameworks = ((blockKeys history).map (·.framework)).eraseDups
  /-- and each framework with the signatures of its blocks. -/
  signatures_eq : ∀ framework : String, (registry.blocksOf framework).map (·.signature) =
    (((blockKeys history).filter (·.framework = framework)).map (·.name)).eraseDups

theorem shows_registerAll (history : List Entry) : (empty.registerAll history).Shows history where
  find?_eq _ h := find?_registerAll history h
  names_eq _ h := names_registerAll history h
  blockFrameworks_eq := blockFrameworks_registerAll history
  signatures_eq := blocksOf_registerAll history

/-- An entry that the registry does not take leaves it as it is. -/
theorem register_of_not_takes {registry : Registry} {entry : Entry} (h : registry.takes entry = false) :
    registry.register entry = registry := by
  unfold takes at h
  rw [Bool.or_eq_false_iff, decide_eq_false_iff_not] at h
  rw [register_eq_insert registry h.1, Named.insert, if_neg (by simp [h.2])]

/-- **The law of histories.**  A registry shows its history.  The next entry is refused exactly when it is no category,
says nothing, and an entry of its key said something; it is refused without a trace.  Taken or not, it changes nothing
under the other keys, and the registry grows by one exactly when its key is new. -/
theorem register_after_history (history : List Entry) (entry : Entry) :
    (empty.registerAll history).Shows history ∧
    ((empty.registerAll history).takes entry = false ↔
      entry.kind ≠ .extension ∧ entry.carriesInformation = false ∧
        ∃ earlier ∈ history, earlier.key = entry.key ∧ earlier.carriesInformation = true) ∧
    ((empty.registerAll history).takes entry = false →
      (empty.registerAll history).register entry = empty.registerAll history) ∧
    (∀ key, key ≠ entry.key →
      ((empty.registerAll history).register entry).find? key = (empty.registerAll history).find? key) ∧
    (((empty.registerAll history).register entry).size =
      if ∃ earlier ∈ history, earlier.key = entry.key then (empty.registerAll history).size
      else (empty.registerAll history).size + 1) := by
  refine ⟨shows_registerAll history, ?_, register_of_not_takes, fun _ h => find?_register_of_ne _ h, ?_⟩
  · unfold takes
    rw [Bool.or_eq_false_iff, decide_eq_false_iff_not]
    refine and_congr_right fun hkind => ?_
    rw [accepts_of_settled (find?_registerAll history (by rwa [Entry.kind_key]))]
    refine and_congr_right fun _ => ?_
    simp only [List.mem_filter, decide_eq_true_eq, and_assoc]
  · rw [size_register]
    simp only [mem_keys_registerAll]

/-- The class `Widget`, with or without a superclass. -/
def widget (superclass : Option String) : Entry :=
  .class_ { kind := .class_, heading := { name := "Widget", kind := .class_, source := .unresolved }, superclass }

/-- A forward declaration after the class itself is refused without a trace, and a protocol of that name is another
key. -/
theorem register_forward_class :
    (empty.registerAll [widget (some "NSObject")]).takes (widget none) = false ∧
    (empty.registerAll [widget (some "NSObject")]).register (widget none) =
      empty.registerAll [widget (some "NSObject")] ∧
    ((empty.registerAll [widget (some "NSObject")]).register (widget none)).find?
        { kind := .protocol, name := "Widget" } =
      (empty.registerAll [widget (some "NSObject")]).find? { kind := .protocol, name := "Widget" } := by
  obtain ⟨-, hiff, hsame, hother, -⟩ := register_after_history [widget (some "NSObject")] (widget none)
  have htakes : (empty.registerAll [widget (some "NSObject")]).takes (widget none) = false :=
    hiff.2 ⟨by decide, rfl, widget (some "NSObject"), by simp, rfl, rfl⟩
  exact ⟨htakes, hsame htakes, hother _ (by decide)⟩

end Registry

end HeaderCatalog
