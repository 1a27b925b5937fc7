import HeaderCatalog.Node.Basic
import Mathlib.Data.List.DropRight

set_option autoImplicit false

/-!
# The order of versions

Two versions are compared as if both went on with zeros.  Continued to one length they are compared number by number
like any lists of that length (`compareParts_eq_compareLex`), and so the order of versions is reflexive, oriented and
transitive whatever their lengths are.  Two of them are equal if they differ in zeros at the end only
(`compareParts_eq_eq_iff`), and texts that are no versions are not compared (`compare?_total_preorder`).

What is obsolete at some version is obsolete at every later one: raising the oldest version to be served can only take
declarations away (`Availability.appliesTo_of_precedes`).
-/

namespace HeaderCatalog

namespace Version

/-- The first numbers decide, then the rest; where there is no number, zero stands for it. -/
theorem compareParts_eq (a b : List Nat) :
    compareParts a b = (compare (a.headD 0) (b.headD 0)).then (compareParts a.tail b.tail) := by
  cases a with
  | nil => cases b <;> rfl
  | cons x xs => cases b <;> rfl

theorem rightpad_succ (n : Nat) (a : List Nat) : a.rightpad (n + 1) 0 = a.headD 0 :: a.tail.rightpad n 0 := by
  cases a with
  | nil => simp [List.rightpad, List.replicate_succ]
  | cons x xs => simp [List.rightpad]

/-- Versions that are continued with zeros to one length are compared number by number.  The induction is on that
length, so that it does not matter which of the two ends first. -/
theorem compareParts_eq_compareLex {n : Nat} {a b : List Nat} (ha : a.length ≤ n) (hb : b.length ≤ n) :
    compareParts a b = List.compareLex compare (a.rightpad n 0) (b.rightpad n 0) := by
  induction n generalizing a b with
  | zero =>
    obtain rfl : a = [] := List.length_eq_zero_iff.1 (Nat.le_zero.1 ha)
    obtain rfl : b = [] := List.length_eq_zero_iff.1 (Nat.le_zero.1 hb)
    rfl
  | succ n ih =>
    have htail : ∀ {c : List Nat}, c.length ≤ n + 1 → c.tail.length ≤ n := by
      intro c hc
      rw [List.length_tail]
      omega
    rw [compareParts_eq, rightpad_succ, rightpad_succ, List.compareLex_cons_cons, ih (htail ha) (htail hb)]

/-- Versions of any lengths are in a total preorder. -/
instance : Std.TransCmp compareParts where
  eq_swap {a b} := by
    have ha : a.length ≤ max a.length b.length := Nat.le_max_left ..
    have hb : b.length ≤ max a.length b.length := Nat.le_max_right ..
    rw [compareParts_eq_compareLex ha hb, compareParts_eq_compareLex hb ha]
    exact Std.OrientedCmp.eq_swap
  isLE_trans {a b c} hab hbc := by
    have ha : a.length ≤ max a.length (max b.length c.length) := by omega
    have hb : b.length ≤ max a.length (max b.length c.length) := by omega
    have hc : c.length ≤ max a.length (max b.length c.length) := by omega
    rw [compareParts_eq_compareLex ha hb] at hab
    rw [compareParts_eq_compareLex hb hc] at hbc
    rw [compareParts_eq_compareLex ha hc]
    exact Std.TransCmp.isLE_trans hab hbc

/-! ## Zeros at the end -/

/-- A version without the zeros at its end. -/
def significant (parts : List Nat) : List Nat := parts.rdropWhile (· == 0)

theorem exists_significant_append (parts : List Nat) :
    ∃ zeros, significant parts ++ List.replicate zeros 0 = parts := by
  refine ⟨(parts.rtakeWhile (· == 0)).length, ?_⟩
  have hzeros : parts.rtakeWhile (· == 0) = List.replicate (parts.rtakeWhile (· == 0)).length 0 :=
    List.eq_replicate_of_mem fun part hpart => beq_iff_eq.1 (List.mem_rtakeWhile_imp (p := (· == 0)) hpart)
  rw [← hzeros]
  exact List.rdropWhile_append_rtakeWhile ..

theorem significant_append_replicate (parts : List Nat) (zeros : Nat) :
    significant (parts ++ List.replicate zeros 0) = significant parts := by
  have hzeros : ∀ part ∈ List.replicate zeros 0, (part == 0) = true :=
    fun part hpart => beq_iff_eq.2 (List.eq_of_mem_replicate hpart)
  rw [significant, List.rdropWhile, List.reverse_append, List.reverse_replicate, List.dropWhile_append_of_pos hzeros]
  rfl

/-- Zeros at the end make no difference to a version that is continued with zeros. -/
theorem rightpad_significant {n : Nat} {parts : List Nat} (h : parts.length ≤ n) :
    (significant parts).rightpad n 0 = parts.rightpad n 0 := by
  obtain ⟨zeros, hparts⟩ := exists_significant_append parts
  have hlength := congrArg List.length hparts
  rw [List.length_append, List.length_replicate] at hlength
  have hzeros : n - (significant parts).length = zeros + (n - parts.length) := by omega
  rw [List.rightpad, List.rightpad, hzeros, List.replicate_add, ← List.append_assoc, hparts]

/-- Two versions are equal in the order if and only if they differ in zeros at the end only. -/
theorem compareParts_eq_eq_iff (a b : List Nat) : compareParts a b = .eq ↔ significant a = significant b := by
  have ha : a.length ≤ max a.length b.length := Nat.le_max_left ..
  have hb : b.length ≤ max a.length b.length := Nat.le_max_right ..
  rw [compareParts_eq_compareLex ha hb, Std.LawfulEqCmp.compare_eq_iff_eq]
  constructor
  · intro h
    have hsignificant := congrArg significant h
    rwa [List.rightpad, List.rightpad, significant_append_replicate, significant_append_replicate] at hsignificant
  · intro h
    rw [← rightpad_significant ha, ← rightpad_significant hb, h]

/-! ## Version texts -/

theorem compare?_of_parse? {a b : List Char} {first second : List Nat} (ha : parse? a = some first)
    (hb : parse? b = some second) : compare? a b = some (compareParts first second) := by
  rw [compare?, ha, hb]
  rfl

theorem compare?_eq_none_iff_or (a b : List Char) : compare? a b = none ↔ parse? a = none ∨ parse? b = none := by
  unfold compare?
  cases parse? a <;> cases parse? b <;> simp

theorem compare?_swap (a b : List Char) : compare? b a = (compare? a b).map Ordering.swap := by
  cases ha : parse? a with
  | none => rw [(compare?_eq_none_iff_or a b).2 (.inl ha), (compare?_eq_none_iff_or b a).2 (.inr ha), Option.map_none]
  | some first =>
    cases hb : parse? b with
    | none =>
      rw [(compare?_eq_none_iff_or a b).2 (.inr hb), (compare?_eq_none_iff_or b a).2 (.inl hb), Option.map_none]
    | some second =>
      rw [compare?_of_parse? ha hb, compare?_of_parse? hb ha, Option.map_some]
      exact congrArg some Std.OrientedCmp.eq_swap

theorem compare?_self {a : List Char} (h : parse? a ≠ none) : compare? a a = some .eq := by
  obtain ⟨parts, hparts⟩ := Option.ne_none_iff_exists'.1 h
  rw [compare?_of_parse? hparts hparts, compareParts_self]

theorem compare?_eq_some_eq_iff {a b : List Char} {first second : List Nat} (ha : parse? a = some first)
    (hb : parse? b = some second) : compare? a b = some .eq ↔ significant first = significant second := by
  rw [compare?_of_parse? ha hb, Option.some.injEq, compareParts_eq_eq_iff]

theorem compare?_isLE_total {a b : List Char} (ha : parse? a ≠ none) (hb : parse? b ≠ none) :
    (compare? a b).any Ordering.isLE = true ∨ (compare? b a).any Ordering.isLE = true := by
  obtain ⟨first, ha⟩ := Option.ne_none_iff_exists'.1 ha
  obtain ⟨second, hb⟩ := Option.ne_none_iff_exists'.1 hb
  rw [compare?_swap a b, compare?_of_parse? ha hb, Option.map_some, Option.any_some, Option.any_some]
  cases compareParts first second <;> decide

/-- Both of two texts that are compared are versions. -/
theorem exists_parse?_of_compare?_any {a b : List Char} (h : (compare? a b).any Ordering.isLE = true) :
    ∃ first second, parse? a = some first ∧ parse? b = some second ∧ (compareParts first second).isLE = true := by
  cases ha : parse? a with
  | none => simp [compare?, ha] at h
  | some first =>
    cases hb : parse? b with
    | none => simp [compare?, hb] at h
    | some second => exact ⟨first, second, rfl, rfl, by simpa [compare?_of_parse? ha hb] using h⟩

theorem compare?_isLE_trans {a b c : List Char} (hab : (compare? a b).any Ordering.isLE = true)
    (hbc : (compare? b c).any Ordering.isLE = true) : (compare? a c).any Ordering.isLE = true := by
  obtain ⟨first, second, ha, hb, hle⟩ := exists_parse?_of_compare?_any hab
  obtain ⟨second', third, hb', hc, hle'⟩ := exists_parse?_of_compare?_any hbc
  obtain rfl : second = second' := Option.some.inj (hb.symm.trans hb')
  rw [compare?_of_parse? ha hc, Option.any_some]
  exact Std.TransCmp.isLE_trans hle hle'

/-! ## Earlier and later versions -/

/-- One version is at most another one, both being versions. -/
def Precedes (earlier later : String) : Prop :=
  ∃ a b, parse? earlier.toList = some a ∧ parse? later.toList = some b ∧ (compareParts a b).isLE = true

/-- What is later than a version is later than all versions before it. -/
theorem compare?_gt_of_precedes {version earlier later : String} (h : Precedes earlier later)
    (hgt : compare? version.toList later.toList = some .gt) : compare? version.toList earlier.toList = some .gt := by
  obtain ⟨a, b, ha, hb, hle⟩ := h
  unfold compare? at hgt ⊢
  cases hversion : parse? version.toList with
  | none => simp [hversion] at hgt
  | some parts =>
    have hparts : compareParts parts b = .gt := by simpa [hversion, hb] using hgt
    have hswap : compareParts b a = (compareParts a b).swap := Std.OrientedCmp.eq_swap
    have hge : (compareParts b a).isGE = true := by
      rw [hswap]
      simpa using hle
    have hearlier : compareParts parts a = .gt := Std.TransCmp.gt_of_gt_of_isGE hparts hge
    simp [ha, hearlier]

theorem compare?_eq_none_iff {version other : String} {parts : List Nat} (h : parse? other.toList = some parts) :
    compare? version.toList other.toList = none ↔ parse? version.toList = none := by
  simp [compare?_eq_none_iff_or, h]

end Version

/-- A declaration that applies at a version applies at every version before it. -/
theorem Availability.appliesTo_of_precedes {availability : Availability} {earlier later : String}
    (h : Version.Precedes earlier later) (happlies : availability.appliesTo later = true) :
    availability.appliesTo earlier = true := by
  obtain ⟨a, b, ha, hb, -⟩ := id h
  unfold appliesTo at happlies ⊢
  rw [Bool.and_eq_true] at happlies ⊢
  refine ⟨happlies.1, ?_⟩
  have hobsoleted := happlies.2
  cases hversion : availability.obsoleted with
  | none => rfl
  | some obsoleted =>
    simp only [hversion] at hobsoleted ⊢
    cases hlater : Version.compare? obsoleted.toList later.toList with
    | none =>
      rw [Version.compare?_eq_none_iff hb] at hlater
      rw [(Version.compare?_eq_none_iff ha).2 hlater]
    | some ordering =>
      cases ordering with
      | gt => rw [Version.compare?_gt_of_precedes h hlater]
      | lt | eq => simp [hlater] at hobsoleted

/-- **The order of version texts.**  Texts are compared if and only if both are versions.  On versions the order is
reflexive, oriented, transitive and total; equal are those that differ in zeros at the end only.  What applies at a
version applies at every version before it. -/
theorem Version.compare?_total_preorder :
    (∀ a b : List Char, compare? a b = none ↔ parse? a = none ∨ parse? b = none) ∧
    (∀ a : List Char, parse? a ≠ none → compare? a a = some .eq) ∧
    (∀ a b : List Char, compare? b a = (compare? a b).map Ordering.swap) ∧
    (∀ a b c : List Char, (compare? a b).any Ordering.isLE = true → (compare? b c).any Ordering.isLE = true →
      (compare? a c).any Ordering.isLE = true) ∧
    (∀ a b : List Char, parse? a ≠ none → parse? b ≠ none →
      (compare? a b).any Ordering.isLE = true ∨ (compare? b a).any Ordering.isLE = true) ∧
    (∀ (a b : List Char) (first second : List Nat), parse? a = some first → parse? b = some second →
      (compare? a b = some .eq ↔ significant first = significant second)) ∧
    ∀ (availability : Availability) (earlier later : String),
      (compare? earlier.toList later.toList).any Ordering.isLE = true →
        availability.appliesTo later = true → availability.appliesTo earlier = true := by
  refine ⟨compare?_eq_none_iff_or, fun _ => compare?_self, compare?_swap, fun _ _ _ => compare?_isLE_trans,
    fun _ _ => compare?_isLE_total, fun _ _ _ _ => compare?_eq_some_eq_iff, fun availability _ _ hle => ?_⟩
  exact availability.appliesTo_of_precedes (exists_parse?_of_compare?_any hle)

/-- Three spellings of one version between an earlier and a later one. -/
theorem Version.compare?_nine :
    compare? "9".toList "9".toList = some .eq ∧
    (compare? "8.4".toList "9.0".toList).any Ordering.isLE = true ∧
    (compare? "9.0".toList "9".toList).any Ordering.isLE = true ∧
    (compare? "8.4".toList "9".toList).any Ordering.isLE = true ∧
    ((compare? "9.0".toList "10".toList).any Ordering.isLE = true ∨
      (compare? "10".toList "9.0".toList).any Ordering.isLE = true) ∧
    parse? "9".toList = some [9] ∧ parse? " +9.0.0".toList = some [9, 0, 0] ∧
    (compare? "9".toList " +9.0.0".toList = some .eq ↔ significant [9] = significant [9, 0, 0]) ∧
    ({ obsoleted := some "9.0.1" } : Availability).appliesTo "9" = true ∧
    ({ obsoleted := some "9.0.1" } : Availability).appliesTo "8.4" = true := by
  obtain ⟨-, hself, -, htrans, htotal, hequal, happlies⟩ := compare?_total_preorder
  have hnine : parse? "9".toList = some [9] := by decide +kernel
  have hzeros : parse? " +9.0.0".toList = some [9, 0, 0] := by decide +kernel
  have hearlier : (compare? "8.4".toList "9.0".toList).any Ordering.isLE = true := by decide +kernel
  have hsame : (compare? "9.0".toList "9".toList).any Ordering.isLE = true := by decide +kernel
  have hbefore := htrans _ _ _ hearlier hsame
  have hnow : ({ obsoleted := some "9.0.1" } : Availability).appliesTo "9" = true := by decide +kernel
  exact ⟨hself _ (by decide +kernel), hearlier, hsame, hbefore,
    htotal _ _ (by decide +kernel) (by decide +kernel), hnine, hzeros, hequal _ _ _ _ hnine hzeros, hnow,
    happlies _ _ _ hbefore hnow⟩

theorem Node.isAvailable_of_precedes {node : Node} {earlier later : String} (h : Version.Precedes earlier later)
    (happlies : node.isAvailable later = true) : node.isAvailable earlier = true := by
  unfold isAvailable at happlies ⊢
  cases havailability : node.availability with
  | none => rfl
  | some availability =>
    rw [havailability] at happlies
    exact availability.appliesTo_of_precedes h happlies

end HeaderCatalog
