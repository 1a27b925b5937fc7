import HeaderCatalog.Path
import HeaderCatalog.Proofs.Text.Words

set_option autoImplicit false

/-!
# Names of framework bundles

A framework is named by one component of a path, so its name is neither empty nor a path itself.
-/

namespace HeaderCatalog.Path

/-- What stands between two separators has none inside. -/
theorem not_mem_of_mem_splitOn {separator : Char} {path part : List Char} (h : part ∈ path.splitOn separator) :
    separator ∉ part := by
  intro hmem
  have hother := (Text.forall_mem_of_mem_splitOnP h separator hmem).1
  rw [beq_self_eq_true] at hother
  cases hother

/-- The name of a bundle is what its component starts with. -/
theorem bundleName?_eq_some {component name : List Char} (h : bundleName? component = some name) :
    name ≠ [] ∧ component = name ++ bundleEnding := by
  unfold bundleName? at h
  dsimp only at h
  split at h
  case isTrue hbundle =>
    cases h
    exact hbundle
  case isFalse => cases h

theorem framework?_eq_some {path framework : String} (h : framework? path = some framework) :
    framework.toList ≠ [] ∧ '/' ∉ framework.toList := by
  obtain ⟨name, hname, rfl⟩ := Option.map_eq_some_iff.1 h
  obtain ⟨component, hcomponent, hbundle⟩ := List.mem_filterMap.1 (List.mem_of_getLast? hname)
  obtain ⟨hne, rfl⟩ := bundleName?_eq_some hbundle
  have hslash := not_mem_of_mem_splitOn (List.dropLast_subset _ hcomponent)
  rw [String.toList_ofList]
  exact ⟨hne, fun hmem => hslash (List.mem_append_left _ hmem)⟩

end HeaderCatalog.Path
