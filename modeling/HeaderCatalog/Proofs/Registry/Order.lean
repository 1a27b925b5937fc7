import HeaderCatalog.Proofs.Registry.Coherent
import Mathlib.Data.List.Nodup

set_option autoImplicit false

/-!
# Registering in another order, and registering again

What stands under a key is decided by the entries of that key alone.  So registries that agree key by key go on agreeing
(`SameEntries.registerAll`), and entries without a key in common can be registered in either order
(`sameEntries_registerAll_comm`); only the order of first mention tells the difference.

A whole history that is registered a second time changes nothing, not even that order, as long as no entry in it is
merged with earlier ones (`registerAll_twice`).
-/

namespace HeaderCatalog

/-- Collections with the same keys in the same order and the same entries under them are equal. -/
theorem Named.eq_of_find?_eq {κ α : Type} [DecidableEq κ] {first second : Named κ α} (hkeys : first.keys = second.keys)
    (hfind : ∀ key, first.find? key = second.find? key) : first = second := by
  have hentries : first.entries = second.entries := by
    have hlength : first.entries.length = second.entries.length := by
      have hkeysLength := congrArg List.length hkeys
      rwa [length_keys, length_keys] at hkeysLength
    refine List.ext_getElem hlength fun index hfirst hsecond => ?_
    have hkey : first.entries[index].1 = second.entries[index].1 := by
      have hindex := List.getElem_of_eq hkeys (by simpa [keys] using hfirst)
      simpa [keys] using hindex
    have hleft : first.find? first.entries[index].1 = some first.entries[index].2 :=
      find?_eq_some_iff.2 (List.getElem_mem hfirst)
    have hright : second.find? second.entries[index].1 = some second.entries[index].2 :=
      find?_eq_some_iff.2 (List.getElem_mem hsecond)
    rw [← hkey, ← hfind, hleft] at hright
    exact Prod.ext hkey (Option.some.inj hright)
  cases first
  cases second
  cases hentries
  rfl

namespace Registry

/-- Registries with the same entry under every key. -/
def SameEntries (first second : Registry) : Prop := ∀ key, first.find? key = second.find? key

variable {registry first second : Registry} {key : EntryKey}

/-! ## One key -/

theorem find?_register_congr (h : first.find? key = second.find? key) (entry : Entry) :
    (first.register entry).find? key = (second.register entry).find? key := by
  by_cases hkey : key = entry.key
  · subst hkey
    by_cases hkind : entry.kind = .extension
    · obtain ⟨category, rfl, hcategory⟩ := exists_category hkind
      rw [register_category first hcategory, register_category second hcategory, Named.find?_put, Named.find?_put,
        merged, merged, h]
    · rw [register_eq_insert first hkind, register_eq_insert second hkind, Named.find?_insert, Named.find?_insert,
        Named.accepts, Named.accepts, h]
  · rw [find?_register_of_ne first hkey, find?_register_of_ne second hkey, h]

theorem find?_registerAll_congr (h : first.find? key = second.find? key) (entries : List Entry) :
    (first.registerAll entries).find? key = (second.registerAll entries).find? key := by
  induction entries generalizing first second with
  | nil => exact h
  | cons entry rest ih => exact ih (find?_register_congr h entry)

theorem find?_registerAll_of_not_mem {entries : List Entry} (h : key ∉ entries.map (·.key)) :
    (registry.registerAll entries).find? key = registry.find? key := by
  induction entries generalizing registry with
  | nil => rfl
  | cons entry rest ih =>
    obtain ⟨hfirst, hrest⟩ := not_or.1 (mt List.mem_cons.2 h)
    exact (ih hrest).trans (find?_register_of_ne registry hfirst)

/-! ## All keys -/

theorem SameEntries.registerAll (h : first.SameEntries second) (entries : List Entry) :
    (first.registerAll entries).SameEntries (second.registerAll entries) :=
  fun key => find?_registerAll_congr (h key) entries

/-- Resolution learns the same from both. -/
theorem SameEntries.lookup_eq (h : first.SameEntries second) : first.lookup = second.lookup := by
  have hmembers : first.members? = second.members? := by
    funext kind name
    rw [members?, members?, record?, record?, entry?, entry?, h]
  have htypes : first.synonymType? = second.synonymType? := by
    funext name
    rw [synonymType?, synonymType?, synonym?, synonym?, entry?, entry?, h]
  rw [lookup, hmembers, htypes, lookup]

/-- Registries that agree key by key list the same entries, in some order. -/
theorem SameEntries.perm (h : first.SameEntries second) : first.entries.Perm second.entries := by
  refine (List.perm_ext_iff_of_nodup (List.Nodup.of_map _ first.distinct) (List.Nodup.of_map _ second.distinct)).2 ?_
  rintro ⟨key, entry⟩
  rw [← Named.find?_eq_some_iff, ← Named.find?_eq_some_iff, h]

/-- Entries without a key in common may be registered in either order. -/
theorem sameEntries_registerAll_comm (registry : Registry) {entries others : List Entry}
    (h : ∀ key ∈ entries.map (·.key), key ∉ others.map (·.key)) :
    ((registry.registerAll entries).registerAll others).SameEntries
      ((registry.registerAll others).registerAll entries) := by
  intro key
  by_cases hkey : key ∈ entries.map (·.key)
  · have hother : (registry.registerAll others).find? key = registry.find? key :=
      find?_registerAll_of_not_mem (h key hkey)
    rw [find?_registerAll_of_not_mem (h key hkey)]
    exact (find?_registerAll_congr hother entries).symm
  · rw [find?_registerAll_of_not_mem hkey]
    exact find?_registerAll_congr (find?_registerAll_of_not_mem hkey) others

/-! ## The same history again -/

theorem settled_append_self (entries : List Entry) : settled (entries ++ entries) = settled entries := by
  unfold settled
  rw [List.filter_append, List.getLast?_append, List.getLast?_append, Option.or_self, Option.or_self]

theorem eraseDups_append_self (keys : List EntryKey) : (keys ++ keys).eraseDups = keys.eraseDups := by
  have hnone : keys.removeAll keys = [] := by simp [List.removeAll]
  rw [List.eraseDups_append, hnone, List.eraseDups_nil, List.append_nil]

theorem registerAll_twice {history : List Entry} (h : ∀ entry ∈ history, entry.kind ≠ .extension) :
    empty.registerAll (history ++ history) = empty.registerAll history := by
  refine Named.eq_of_find?_eq ?_ fun key => ?_
  · rw [keys_registerAll, keys_registerAll, List.map_append, eraseDups_append_self]
  · by_cases hkey : key.kind = .extension
    · have hnone : key ∉ history.map (·.key) := by
        intro hmem
        obtain ⟨entry, hentry, rfl⟩ := List.mem_map.1 hmem
        exact h entry hentry (by rwa [Entry.kind_key] at hkey)
      rw [registerAll_append, find?_registerAll_of_not_mem hnone]
    · rw [find?_registerAll _ hkey, find?_registerAll _ hkey, List.filter_append, settled_append_self]

end Registry

end HeaderCatalog
