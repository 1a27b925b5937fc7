import HeaderCatalog.Registry.Basic
import Mathlib.Data.List.Induction

set_option autoImplicit false

/-!
# Keys and names of a registry

What one registration does to the keys, to the entry under a key and to the size, whatever entry is registered.  The
names of a collection are read off the keys: a registry in which every entry stands under its own key (`Keyed`, which
registration preserves) lists the names of a kind in the order of its keys of that kind.

Order of first mention is `List.eraseDups`: it keeps the first of equal elements and leaves the order alone.
-/

namespace HeaderCatalog

/-! ## Order of first mention -/

section FirstMention

variable {κ μ : Type} [DecidableEq κ] [DecidableEq μ]

/-- Mentioning one more element: a known one changes nothing, a new one comes last. -/
theorem eraseDups_concat (keys : List κ) (key : κ) :
    (keys ++ [key]).eraseDups = if key ∈ keys then keys.eraseDups else keys.eraseDups ++ [key] := by
  rw [List.eraseDups_append]
  by_cases h : key ∈ keys
  · simp [List.removeAll, h]
  · simp [List.removeAll, h, List.eraseDups_cons]

theorem filter_eraseDups (p : κ → Bool) (keys : List κ) :
    keys.eraseDups.filter p = (keys.filter p).eraseDups := by
  induction keys using List.reverseRecOn with
  | nil => rfl
  | append_singleton keys key ih =>
    rw [eraseDups_concat, List.filter_append]
    by_cases hp : p key = true
    · rw [List.filter_cons_of_pos hp, List.filter_nil, eraseDups_concat]
      by_cases hmem : key ∈ keys
      · simp [hmem, hp, ih]
      · simp [hmem, hp, ih, List.filter_append]
    · rw [List.filter_cons_of_neg hp, List.filter_nil, List.append_nil, ← ih]
      split
      · rfl
      · rw [List.filter_append, List.filter_cons_of_neg hp, List.filter_nil, List.append_nil]

/-- Leaving out what an appended list repeats itself makes no difference. -/
theorem eraseDups_append_eraseDups (first second : List κ) :
    (first ++ second.eraseDups).eraseDups = (first ++ second).eraseDups := by
  induction second using List.reverseRecOn with
  | nil => rfl
  | append_singleton second key ih =>
    rw [eraseDups_concat second, ← List.append_assoc, eraseDups_concat, ← ih]
    by_cases hmem : key ∈ second
    · rw [if_pos hmem, if_pos (List.mem_append_right first hmem)]
    · rw [if_neg hmem, ← List.append_assoc, eraseDups_concat]
      simp only [List.mem_append, List.mem_eraseDups]

/-- Adding texts that a list does not have mentions each of them once. -/
theorem foldl_addOnce (known further : List String) :
    further.foldl addOnce known.eraseDups = (known ++ further).eraseDups := by
  induction further using List.reverseRecOn with
  | nil => rw [List.append_nil, List.foldl_nil]
  | append_singleton further value ih =>
    rw [List.foldl_append, ih, ← List.append_assoc, eraseDups_concat, List.foldl_cons, List.foldl_nil, addOnce]
    simp only [List.mem_eraseDups]

/-- What is derived from the elements is first mentioned where the elements are. -/
theorem eraseDups_map_eraseDups (f : κ → μ) (keys : List κ) :
    (keys.eraseDups.map f).eraseDups = (keys.map f).eraseDups := by
  induction keys using List.reverseRecOn with
  | nil => rfl
  | append_singleton keys key ih =>
    rw [eraseDups_concat, List.map_append, List.map_singleton, eraseDups_concat]
    by_cases hmem : key ∈ keys
    · rw [if_pos hmem, if_pos (List.mem_map_of_mem hmem), ih]
    · have hiff : f key ∈ keys.eraseDups.map f ↔ f key ∈ keys.map f := by
        simp only [List.mem_map, List.mem_eraseDups]
      rw [if_neg hmem, List.map_append, List.map_singleton, eraseDups_concat, ih]
      simp only [hiff]

/-- A name that tells the elements apart keeps them apart. -/
theorem map_eraseDups_of_injOn {f : κ → μ} {keys : List κ}
    (h : ∀ first ∈ keys, ∀ second ∈ keys, f first = f second → first = second) :
    keys.eraseDups.map f = (keys.map f).eraseDups := by
  induction keys using List.reverseRecOn with
  | nil => rfl
  | append_singleton keys key ih =>
    have hkeys : keys.eraseDups.map f = (keys.map f).eraseDups :=
      ih fun first hfirst second hsecond =>
        h first (List.mem_append_left _ hfirst) second (List.mem_append_left _ hsecond)
    have hiff : f key ∈ keys.map f ↔ key ∈ keys := by
      refine ⟨fun hmem => ?_, List.mem_map_of_mem⟩
      obtain ⟨other, hother, heq⟩ := List.mem_map.1 hmem
      rw [← h other (List.mem_append_left _ hother) key (by simp) heq]
      exact hother
    rw [eraseDups_concat, List.map_append, List.map_singleton, eraseDups_concat, ← hkeys]
    simp only [hiff]
    split
    · rfl
    · rw [List.map_append, List.map_singleton]

end FirstMention

namespace Named

variable {κ α : Type} [DecidableEq κ] [Informative α]

theorem mem_keys_of_not_accepts {c : Named κ α} {key : κ} {value : α} (h : c.accepts key value = false) :
    key ∈ c.keys := by
  rw [← find?_isSome_iff]
  unfold accepts at h
  cases hfind : c.find? key with
  | none => simp [hfind] at h
  | some earlier => rfl

theorem keys_insert (c : Named κ α) (key : κ) (value : α) :
    (c.insert key value).keys = if key ∈ c.keys then c.keys else c.keys ++ [key] := by
  unfold insert
  split
  · exact keys_put c key value
  · next h => rw [if_pos (mem_keys_of_not_accepts (by simpa using h))]

theorem find?_insert (c : Named κ α) (key other : κ) (value : α) :
    (c.insert key value).find? other =
      if other = key ∧ c.accepts key value = true then some value else c.find? other := by
  unfold insert
  split
  · next h => simp [find?_put, h]
  · next h => simp [h]

omit [DecidableEq κ] [Informative α] in
theorem length_keys (c : Named κ α) : c.keys.length = c.size := by simp [keys, size]

omit [Informative α] in
theorem mem_entries_put {c : Named κ α} {key : κ} {value : α} {entry : κ × α}
    (h : entry ∈ (c.put key value).entries) : entry ∈ c.entries ∨ entry = (key, value) := by
  unfold put at h
  split at h
  · obtain ⟨earlier, hmem, heq⟩ := List.mem_map.1 h
    split at heq
    · exact Or.inr heq.symm
    · exact Or.inl (heq ▸ hmem)
  · simpa using h

end Named

/-! ## Keys of entries -/

namespace Entry

@[simp] theorem kind_key (entry : Entry) : entry.key.kind = entry.kind := by
  cases entry <;> rfl

theorem exists_block {entry : Entry} (h : entry.kind = .block) : ∃ block, entry = .block block := by
  cases entry with
  | block block => exact ⟨block, rfl⟩
  | class_ entry => exact absurd h entry.kind.entryKind_ne_block
  | _ => cases h

/-- Apart from blocks, the key of an entry is its kind and its name. -/
theorem key_eq {entry : Entry} (h : entry.kind ≠ .block) : entry.key = { kind := entry.kind, name := entry.name } := by
  cases entry with
  | block block => exact absurd rfl h
  | _ => rfl

theorem name_key {entry : Entry} (h : entry.kind ≠ .block) : entry.key.name = entry.name := by
  rw [key_eq h]

/-- Apart from blocks, kind and name tell entries apart. -/
theorem key_eq_iff {first second : Entry} (h : first.kind ≠ .block) :
    first.key = second.key ↔ first.kind = second.kind ∧ first.name = second.name := by
  constructor
  · intro heq
    have hkind : first.kind = second.kind := by rw [← kind_key, heq, kind_key]
    exact ⟨hkind, by rw [← name_key h, heq, name_key (hkind ▸ h)]⟩
  · rintro ⟨hkind, hname⟩
    rw [key_eq h, key_eq (hkind ▸ h), hkind, hname]

/-- Apart from blocks, the names of a kind can be read off the keys. -/
theorem map_name_keys (entries : List Entry) {kind : EntryKind} (h : kind ≠ .block) :
    ((entries.map (·.key)).filter (·.kind = kind)).map (·.name) = (entries.filter (·.kind = kind)).map (·.name) := by
  rw [List.filter_map, List.map_map]
  simp only [Function.comp_def, kind_key]
  refine List.map_congr_left fun entry hentry => ?_
  obtain rfl : entry.kind = kind := by simpa using (List.mem_filter.1 hentry).2
  exact name_key h

end Entry

namespace Registry

/-! ## One registration -/

theorem register_eq_insert (registry : Registry) {entry : Entry} (h : entry.kind ≠ .extension) :
    registry.register entry = registry.insert entry.key entry := by
  cases entry with
  | class_ category =>
    have hkind : category.kind ≠ .extension := by
      intro heq
      exact h (by simp [Entry.kind, heq, ClassKind.entryKind])
    simp [register, hkind]
  | _ => rfl

theorem register_category (registry : Registry) {category : ClassEntry} (h : category.kind = .extension) :
    registry.register (.class_ category) =
      registry.put (Entry.class_ category).key (.class_ (registry.merged category)) := by
  simp [register, h]

theorem exists_category {entry : Entry} (h : entry.kind = .extension) :
    ∃ category : ClassEntry, entry = .class_ category ∧ category.kind = .extension := by
  cases entry with
  | class_ category =>
    refine ⟨category, rfl, ?_⟩
    cases hkind : category.kind <;> simp [Entry.kind, hkind, ClassKind.entryKind] at h
    rfl
  | _ => simp [Entry.kind] at h

theorem keys_register (registry : Registry) (entry : Entry) :
    (registry.register entry).keys =
      if entry.key ∈ registry.keys then registry.keys else registry.keys ++ [entry.key] := by
  by_cases h : entry.kind = .extension
  · obtain ⟨category, rfl, hkind⟩ := exists_category h
    rw [register_category registry hkind, Named.keys_put]
  · rw [register_eq_insert registry h, Named.keys_insert]

/-- The registry grows by one exactly when the key is new. -/
theorem size_register (registry : Registry) (entry : Entry) :
    (registry.register entry).size = if entry.key ∈ registry.keys then registry.size else registry.size + 1 := by
  rw [← Named.length_keys, keys_register, ← Named.length_keys]
  split <;> simp

theorem find?_register_of_ne (registry : Registry) {entry : Entry} {key : EntryKey} (h : key ≠ entry.key) :
    (registry.register entry).find? key = registry.find? key := by
  by_cases hkind : entry.kind = .extension
  · obtain ⟨category, rfl, hcategory⟩ := exists_category hkind
    rw [register_category registry hcategory, Named.find?_put, if_neg h]
  · rw [register_eq_insert registry hkind, Named.find?_insert, if_neg (fun hk => h hk.1)]

/-! ## What registering tells -/

theorem members?_register_of_ne (registry : Registry) {entry : Entry} {kind : RecordKind} {name : String}
    (h : { kind := .record kind, name } ≠ entry.key) :
    (registry.register entry).members? kind name = registry.members? kind name := by
  rw [members?, members?, record?, record?, entry?, entry?, find?_register_of_ne registry h]

theorem synonymType?_register_of_ne (registry : Registry) {entry : Entry} {name : String}
    (h : { kind := .synonym, name } ≠ entry.key) :
    (registry.register entry).synonymType? name = registry.synonymType? name := by
  rw [synonymType?, synonymType?, synonym?, synonym?, entry?, entry?, find?_register_of_ne registry h]

/-- Resolution learns of records and typedefs only: what is known stays the same when another entry is registered. -/
theorem lookup_register (registry : Registry) {entry : Entry} (hrecord : ∀ kind, entry.kind ≠ .record kind)
    (hsynonym : entry.kind ≠ .synonym) : (registry.register entry).lookup = registry.lookup := by
  have hmembers : (registry.register entry).members? = registry.members? := by
    funext kind name
    refine members?_register_of_ne registry fun heq => hrecord kind ?_
    rw [← Entry.kind_key, ← heq]
  have htypes : (registry.register entry).synonymType? = registry.synonymType? := by
    funext name
    refine synonymType?_register_of_ne registry fun heq => hsynonym ?_
    rw [← Entry.kind_key, ← heq]
  rw [lookup, hmembers, htypes, lookup]

/-! ## Entries under their own keys -/

/-- Every entry stands under its own key. -/
def Keyed (registry : Registry) : Prop := ∀ pair ∈ registry.entries, pair.1 = pair.2.key

theorem keyed_empty : Keyed empty := by
  intro pair h
  simp [empty, Named.empty] at h

/-- Merging keeps the key of the category that comes in: what is there of its class stands under the same one. -/
theorem key_merged {registry : Registry} (h : registry.Keyed) (category : ClassEntry) :
    (Entry.class_ (registry.merged category)).key = (Entry.class_ category).key := by
  unfold merged
  split
  · next earlier hfind =>
    have hmem : ((Entry.class_ category).key, Entry.class_ earlier) ∈ registry.entries := by
      unfold Named.find? at hfind
      obtain ⟨before, after, heq, -⟩ := List.lookup_eq_some_iff.1 hfind
      simp [heq]
    exact (h _ hmem).symm
  · rfl

theorem keyed_register {registry : Registry} (h : registry.Keyed) (entry : Entry) :
    (registry.register entry).Keyed := by
  intro pair hpair
  by_cases hkind : entry.kind = .extension
  · obtain ⟨category, rfl, hcategory⟩ := exists_category hkind
    rw [register_category registry hcategory] at hpair
    rcases Named.mem_entries_put hpair with hold | rfl
    · exact h pair hold
    · exact (key_merged h category).symm
  · rw [register_eq_insert registry hkind] at hpair
    unfold Named.insert at hpair
    split at hpair
    · rcases Named.mem_entries_put hpair with hold | rfl
      · exact h pair hold
      · rfl
    · exact h pair hpair

/-! ## Names -/

theorem keys_eq {registry : Registry} (h : registry.Keyed) : registry.keys = registry.values.map (·.key) := by
  unfold Named.keys Named.values
  rw [List.map_map]
  exact List.map_congr_left h

theorem names_eq {registry : Registry} (h : registry.Keyed) {kind : EntryKind} (hkind : kind ≠ .block) :
    registry.names kind = (registry.keys.filter (·.kind = kind)).map (·.name) := by
  rw [keys_eq h, Entry.map_name_keys _ hkind]
  rfl

end Registry

end HeaderCatalog
