import HeaderCatalog.Naming
import HeaderCatalog.Proofs.Text.Words
import Mathlib.Data.List.Infix

set_option autoImplicit false

/-!
# Generic arguments

The arguments of a generic class are left out with the brackets around them, and the blanks that remain are squeezed.
The brackets of a spelling need not match.  So the law is about one group whose inside is balanced (`IsBalanced`): it
can be taken out wherever it stands, inside brackets that are never closed or behind ones that were never opened
(`withoutArguments_insert`).

What is left has no opening bracket and is squeezed.  A closing bracket without an opening one stays.
-/

namespace HeaderCatalog.Naming

/-! ## Brackets -/

/-- How many angle brackets are open behind a text, with `depth` open in front of it.  A closing bracket without an
opening one closes nothing. -/
def openBrackets : Nat → List Char → Nat
  | depth, [] => depth
  | depth, c :: rest =>
    if c = '<' then openBrackets (depth + 1) rest
    else if c = '>' then openBrackets (depth - 1) rest
    else openBrackets depth rest

/-- A text is read from where the one in front of it stops. -/
theorem outsideBrackets_append (depth : Nat) (s t : List Char) :
    outsideBrackets depth (s ++ t) = outsideBrackets depth s ++ outsideBrackets (openBrackets depth s) t := by
  fun_induction outsideBrackets depth s with
  | case1 => rfl
  | case2 depth rest ih => rw [List.cons_append, outsideBrackets, openBrackets, if_pos rfl, if_pos rfl, ih]
  | case3 depth c rest hopening hclosing ih =>
    rw [List.cons_append, outsideBrackets, openBrackets, if_neg hopening, if_neg hopening, if_pos hclosing,
      if_pos hclosing.1, ih]
  | case4 c rest hopening hclosing ih =>
    -- with no bracket open a closing one leaves none open either
    rw [List.cons_append, outsideBrackets, openBrackets, if_neg hopening, if_neg hopening, if_neg hclosing, if_pos rfl,
      Nat.zero_sub, ite_self, ih, List.cons_append]
  | case5 depth c rest hopening hclosing hdepth ih =>
    have hother : c ≠ '>' := fun h => hclosing ⟨h, Nat.pos_of_ne_zero hdepth⟩
    rw [List.cons_append, outsideBrackets, openBrackets, if_neg hopening, if_neg hopening, if_neg hclosing,
      if_neg hdepth, if_neg hother, ih]

/-- As long as a bracket stays open nothing is kept, and the brackets are counted exactly. -/
theorem outsideBrackets_eq_nil {depth : Nat} {s : List Char}
    (h : ∀ front, front <+: s → front.count '>' < depth + front.count '<') :
    outsideBrackets depth s = [] ∧ openBrackets depth s + s.count '>' = depth + s.count '<' := by
  induction s generalizing depth with
  | nil => exact ⟨rfl, rfl⟩
  | cons c rest ih =>
    have hdepth : 0 < depth := h [] List.nil_prefix
    have hrest : ∀ front, front <+: rest → (c :: front).count '>' < depth + (c :: front).count '<' :=
      fun front hfront => h (c :: front) (List.cons_prefix_cons.2 ⟨rfl, hfront⟩)
    rw [outsideBrackets, openBrackets]
    by_cases hopening : c = '<'
    · subst hopening
      have hinner : ∀ front, front <+: rest → front.count '>' < depth + 1 + front.count '<' := by
        intro front hfront
        have hlt := hrest front hfront
        rw [List.count_cons_of_ne (by decide), List.count_cons_self] at hlt
        omega
      obtain ⟨hnil, hopen⟩ := ih hinner
      rw [if_pos rfl, if_pos rfl, List.count_cons_of_ne (by decide), List.count_cons_self]
      exact ⟨hnil, by omega⟩
    rw [if_neg hopening, if_neg hopening, List.count_cons_of_ne hopening]
    by_cases hclosing : c = '>'
    · subst hclosing
      have houter : ∀ front, front <+: rest → front.count '>' < depth - 1 + front.count '<' := by
        intro front hfront
        have hlt := hrest front hfront
        rw [List.count_cons_of_ne hopening, List.count_cons_self] at hlt
        omega
      obtain ⟨hnil, hopen⟩ := ih houter
      rw [if_pos ⟨rfl, hdepth⟩, if_pos rfl, List.count_cons_self]
      exact ⟨hnil, by omega⟩
    · have hsame : ∀ front, front <+: rest → front.count '>' < depth + front.count '<' := by
        intro front hfront
        have hlt := hrest front hfront
        rwa [List.count_cons_of_ne hopening, List.count_cons_of_ne hclosing] at hlt
      rw [if_neg fun hboth => hclosing hboth.1, if_neg (Nat.ne_of_gt hdepth), if_neg hclosing,
        List.count_cons_of_ne hclosing]
      exact ih hsame

/-- A text is balanced if it closes no bracket that it has not opened, and opens none that it does not close. -/
structure IsBalanced (s : List Char) : Prop where
  count_le : ∀ front, front <+: s → front.count '>' ≤ front.count '<'
  count_eq : s.count '>' = s.count '<'

instance (s : List Char) : Decidable (IsBalanced s) :=
  decidable_of_iff ((∀ front ∈ s.inits, front.count '>' ≤ front.count '<') ∧ s.count '>' = s.count '<')
    ⟨fun h => ⟨fun front hfront => h.1 front ((List.mem_inits front s).2 hfront), h.2⟩,
      fun h => ⟨fun front hfront => h.count_le front ((List.mem_inits front s).1 hfront), h.count_eq⟩⟩

/-- A balanced text in brackets is passed over, at any depth. -/
theorem outsideBrackets_enclosed {inner : List Char} (h : IsBalanced inner) (depth : Nat) (s : List Char) :
    outsideBrackets depth ('<' :: inner ++ '>' :: s) = outsideBrackets depth s := by
  have hinside : ∀ front, front <+: inner → front.count '>' < depth + 1 + front.count '<' := by
    intro front hfront
    have hle := h.count_le front hfront
    omega
  obtain ⟨hnil, hopen⟩ := outsideBrackets_eq_nil hinside
  have hdepth : openBrackets (depth + 1) inner = depth + 1 := by
    have heq := h.count_eq
    omega
  rw [List.cons_append, outsideBrackets, if_pos rfl, outsideBrackets_append, hnil, hdepth, List.nil_append,
    outsideBrackets, if_neg (by decide), if_pos ⟨rfl, Nat.succ_pos depth⟩, Nat.add_sub_cancel]

theorem not_mem_outsideBrackets (depth : Nat) (s : List Char) : '<' ∉ outsideBrackets depth s := by
  fun_induction outsideBrackets depth s with
  | case1 => exact List.not_mem_nil
  | case2 depth rest ih => exact ih
  | case3 depth c rest _ _ ih => exact ih
  | case4 c rest hopening _ ih => exact List.not_mem_cons_of_ne_of_not_mem (Ne.symm hopening) ih
  | case5 depth c rest _ _ _ ih => exact ih

theorem outsideBrackets_of_not_mem {s : List Char} (h : '<' ∉ s) : outsideBrackets 0 s = s := by
  induction s with
  | nil => rfl
  | cons c rest ih =>
    rw [List.mem_cons, not_or] at h
    rw [outsideBrackets, if_neg (Ne.symm h.1), if_neg (by simp), if_pos rfl, ih h.2]

/-! ## Spellings without arguments -/

theorem toList_withoutArguments (spelling : String) :
    (withoutArguments spelling).toList = Text.squeeze (outsideBrackets 0 spelling.toList) := String.toList_ofList

theorem not_mem_withoutArguments (spelling : String) : '<' ∉ (withoutArguments spelling).toList := by
  rw [toList_withoutArguments]
  intro hmem
  rcases Text.mem_of_mem_squeeze hmem with hspace | hmem
  · revert hspace
    decide
  · exact not_mem_outsideBrackets 0 spelling.toList hmem

/-- A spelling without opening brackets is squeezed and nothing else. -/
theorem withoutArguments_of_not_mem {spelling : String} (h : '<' ∉ spelling.toList) :
    withoutArguments spelling = String.ofList (Text.squeeze spelling.toList) := by
  rw [withoutArguments, outsideBrackets_of_not_mem h]

/-- **Generic arguments are left out wherever they stand**, and what is left of a spelling is settled: it has no opening
bracket, it is squeezed, and leaving arguments out once more changes nothing.  Nothing else is left out: a spelling
without opening brackets keeps its words. -/
theorem withoutArguments_insert :
    (∀ before inner behind : String, IsBalanced inner.toList →
      withoutArguments (before ++ "<" ++ inner ++ ">" ++ behind) = withoutArguments (before ++ behind)) ∧
    ∀ spelling : String,
      '<' ∉ (withoutArguments spelling).toList ∧ Text.IsSqueezed (withoutArguments spelling).toList ∧
        withoutArguments (withoutArguments spelling) = withoutArguments spelling ∧
        ('<' ∉ spelling.toList → Text.words (withoutArguments spelling).toList = Text.words spelling.toList) := by
  refine ⟨fun before inner behind hinner => ?_, fun spelling => ⟨not_mem_withoutArguments spelling, ?_, ?_, ?_⟩⟩
  · have hspelling : (before ++ "<" ++ inner ++ ">" ++ behind).toList =
        before.toList ++ ('<' :: inner.toList ++ '>' :: behind.toList) := by simp
    rw [withoutArguments, hspelling, outsideBrackets_append, outsideBrackets_enclosed hinner, ← outsideBrackets_append,
      ← String.toList_append, withoutArguments]
  · rw [toList_withoutArguments]
    exact Text.isSqueezed_squeeze _
  · rw [withoutArguments_of_not_mem (not_mem_withoutArguments spelling), toList_withoutArguments, Text.squeeze_squeeze,
      withoutArguments]
  · intro h
    rw [toList_withoutArguments, Text.words_squeeze, outsideBrackets_of_not_mem h]

/-- Arguments with arguments of their own, in a bracket that is never closed and behind one that was never opened. -/
theorem withoutArguments_insert_dictionary :
    IsBalanced "NSString *, NSArray<NSNumber *> *".toList ∧
      withoutArguments ("> Map  <K, V" ++ "<" ++ "NSString *, NSArray<NSNumber *> *" ++ ">" ++ " *") =
        withoutArguments ("> Map  <K, V" ++ " *") :=
  have hbalanced : IsBalanced "NSString *, NSArray<NSNumber *> *".toList := by decide +kernel
  ⟨hbalanced, withoutArguments_insert.1 _ _ _ hbalanced⟩

end HeaderCatalog.Naming
