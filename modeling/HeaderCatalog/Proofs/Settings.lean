import HeaderCatalog.Proofs.Version
import HeaderCatalog.Survey

set_option autoImplicit false

/-!
# Stricter settings

Three of the settings take declarations away: whether the SDK's own are left out, the one framework that is kept, and
the oldest version to be served.  Settings that differ in these three alone classify every place alike, and if one of
them takes away what the other does, every declaration that it lets through gets through the other as well.
-/

namespace HeaderCatalog

namespace Settings

/-- Settings that take away at least what others do: the same SDK and the same framework of the run, the SDK's own left
out if the others leave it out, the same framework kept or one where the others keep all, and an oldest version that is
the same or no earlier one. -/
structure Tightens (strict loose : Settings) : Prop where
  sdkPath_eq : strict.sdkPath = loose.sdkPath
  frameworkName_eq : strict.frameworkName = loose.frameworkName
  excludeSystem : loose.excludeSystem = true → strict.excludeSystem = true
  frameworkFilter : strict.frameworkFilter = loose.frameworkFilter ∨ loose.frameworkFilter = ""
  minVersion : strict.minVersion = loose.minVersion ∨ Version.Precedes loose.minVersion strict.minVersion

/-- Settings are as strict as themselves. -/
theorem Tightens.refl (settings : Settings) : settings.Tightens settings :=
  ⟨rfl, rfl, id, Or.inl rfl, Or.inl rfl⟩

variable {strict loose : Settings}

/-- A place is the same under settings that take more away. -/
theorem Tightens.classify_eq (h : strict.Tightens loose) : strict.classify = loose.classify := by
  funext location
  unfold classify
  rw [h.sdkPath_eq, h.frameworkName_eq]

/-- What is left out stays left out under settings that take more away. -/
theorem Tightens.excludes (h : strict.Tightens loose) {place : Source} (hexcludes : loose.excludes place = true) :
    strict.excludes place = true := by
  unfold Settings.excludes at hexcludes ⊢
  rw [Bool.and_eq_true, Bool.or_eq_true] at hexcludes ⊢
  refine ⟨hexcludes.1, ?_⟩
  rcases hexcludes.2 with hsystem | hfilter
  · rw [Bool.and_eq_true] at hsystem
    exact Or.inl (by rw [h.excludeSystem hsystem.1, hsystem.2]; rfl)
  · rcases h.frameworkFilter with heq | hempty
    · right
      unfold keepsOneFramework at hfilter ⊢
      rwa [heq]
    · simp [keepsOneFramework, hempty] at hfilter

/-- What applies under settings that take more away applies under the others. -/
theorem Tightens.isAvailable (h : strict.Tightens loose) {node : Node}
    (hstrict : node.isAvailable strict.minVersion = true) : node.isAvailable loose.minVersion = true := by
  rcases h.minVersion with heq | hprecedes
  · rwa [← heq]
  · exact Node.isAvailable_of_precedes hprecedes hstrict

/-- A declaration that stricter settings let through gets through the others. -/
theorem Tightens.skips (h : strict.Tightens loose) {node : Node} (hstrict : strict.skips node = false) :
    loose.skips node = false := by
  unfold Settings.skips at hstrict ⊢
  rw [Bool.or_eq_false_iff] at hstrict ⊢
  refine ⟨?_, ?_⟩
  · have havailable := h.isAvailable (by simpa using hstrict.1)
    simp [havailable]
  · rw [← h.classify_eq]
    refine eq_false_of_ne_true fun hexcludes => ?_
    have hout := h.excludes hexcludes
    rw [hstrict.2] at hout
    cases hout

/-- The constants of an enumeration that apply. -/
def availableConstants (settings : Settings) (node : Node) : List Node :=
  (node.childrenOf .enumConstant).filter (·.isAvailable settings.minVersion)

theorem Tightens.availableConstants_subset (h : strict.Tightens loose) (node : Node) :
    strict.availableConstants node ⊆ loose.availableConstants node := by
  intro constant hconstant
  obtain ⟨hmem, havailable⟩ := List.mem_filter.1 hconstant
  exact List.mem_filter.2 ⟨hmem, h.isAvailable havailable⟩

end Settings

end HeaderCatalog
