import HeaderCatalog.Proofs.Registry.History

set_option autoImplicit false

/-!
# The entry that categories share

The categories of one class stand under one key, and each is merged into what the earlier ones left there.  So what
stands there after a history is all categories of that class in it, merged one after the other
(`find?_extension_registerAll`), whatever else is registered in between.
-/

namespace HeaderCatalog

/-- Categories merged into one entry, from the first one on. -/
def ClassEntry.mergeAll : List ClassEntry → Option ClassEntry
  | [] => none
  | first :: rest => some (rest.foldl merge first)

theorem ClassEntry.mergeAll_concat (categories : List ClassEntry) (category : ClassEntry) :
    mergeAll (categories ++ [category]) = some (((mergeAll categories).map (·.merge category)).getD category) := by
  cases categories with
  | nil => rfl
  | cons first rest => simp [mergeAll, List.foldl_append]

namespace Entry

/-- What an entry is as a category of the class with a name, if it is one. -/
def category? (name : String) : Entry → Option ClassEntry
  | class_ category => if category.kind = .extension ∧ category.heading.name = name then some category else none
  | _ => none

theorem category?_eq_some_iff {name : String} {entry : Entry} {category : ClassEntry} :
    entry.category? name = some category ↔
      entry = .class_ category ∧ category.kind = .extension ∧ category.heading.name = name := by
  cases entry with
  | class_ other =>
    simp only [category?, Option.ite_none_right_eq_some, Option.some.injEq, class_.injEq]
    constructor
    · rintro ⟨hcategory, rfl⟩
      exact ⟨rfl, hcategory⟩
    · rintro ⟨rfl, hcategory⟩
      exact ⟨hcategory, rfl⟩
  | _ => simp [category?]

/-- An entry under the key of an extension is a category of that class. -/
theorem exists_category? {name : String} {entry : Entry} (h : entry.key = { kind := .extension, name }) :
    ∃ category, entry.category? name = some category := by
  have hkind : entry.kind = .extension := by rw [← kind_key, h]
  have hname : entry.name = name := by rw [← name_key (by rw [hkind]; decide), h]
  obtain ⟨category, rfl, hcategory⟩ := Registry.exists_category hkind
  exact ⟨category, category?_eq_some_iff.2 ⟨rfl, hcategory, hname⟩⟩

end Entry

namespace Registry

/-- **The entry of an extension.**  After a history, the categories of a class stand under its name merged into one, in
the order in which they were registered. -/
theorem find?_extension_registerAll (history : List Entry) (name : String) :
    (empty.registerAll history).find? { kind := .extension, name } =
      (ClassEntry.mergeAll (history.filterMap (·.category? name))).map .class_ := by
  induction history using List.reverseRecOn with
  | nil => rfl
  | append_singleton history entry ih =>
    rw [registerAll_concat, List.filterMap_append]
    cases hentry : entry.category? name with
    | none =>
      have hkey : { kind := .extension, name } ≠ entry.key := fun heq => by
        obtain ⟨category, hcategory⟩ := Entry.exists_category? heq.symm
        simp [hentry] at hcategory
      rw [find?_register_of_ne _ hkey, ih]
      simp [hentry]
    | some category =>
      obtain ⟨rfl, hkind, rfl⟩ := Entry.category?_eq_some_iff.1 hentry
      have hkey : (Entry.class_ category).key = { kind := .extension, name := category.heading.name } := by
        simp [Entry.key, Entry.kind, hkind, ClassKind.entryKind, Entry.name, Entry.heading]
      -- What was there is what the earlier categories were merged into.
      rw [register_category _ hkind, hkey, Named.find?_put, if_pos rfl, merged, hkey, ih]
      simp only [List.filterMap_cons, hentry, List.filterMap_nil, ClassEntry.mergeAll_concat, Option.map_some]
      cases ClassEntry.mergeAll (history.filterMap (·.category? category.heading.name)) <;> rfl

end Registry

end HeaderCatalog
