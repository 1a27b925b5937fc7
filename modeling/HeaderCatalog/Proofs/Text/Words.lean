import HeaderCatalog.Text.Blank
import Mathlib.Data.List.Chain

set_option autoImplicit false

/-!
# Words and the blanks between them

What stands between separators has none inside.  So the words of a text have no blanks, and a text that is squeezed has
the same words as before, each a space apart from the next (`words_squeeze`, `isSqueezed_squeeze`).  Squeezing once more
changes nothing.
-/

namespace HeaderCatalog.Text

/-- What stands between separators is part of the text, and none of it is a separator. -/
theorem forall_mem_of_mem_splitOnP {α : Type} {isSeparator : α → Bool} {s part : List α}
    (h : part ∈ s.splitOnP isSeparator) : ∀ c ∈ part, isSeparator c = false ∧ c ∈ s := by
  induction s generalizing part with
  | nil =>
    rw [List.splitOnP_nil, List.mem_singleton] at h
    rw [h]
    exact nofun
  | cons first rest ih =>
    have hrest : ∀ part ∈ rest.splitOnP isSeparator, ∀ c ∈ part, isSeparator c = false ∧ c ∈ first :: rest :=
      fun part hpart c hc => (ih hpart c hc).imp_right (List.mem_cons_of_mem first)
    rw [List.splitOnP_cons_eq_if_modifyHead] at h
    split at h
    case isTrue =>
      rcases List.mem_cons.1 h with rfl | h
      · exact nofun
      · exact hrest part h
    case isFalse hfirst =>
      obtain ⟨head, tail, hparts⟩ := List.exists_cons_of_ne_nil (List.splitOnP_ne_nil isSeparator rest)
      rw [hparts, List.modifyHead_cons] at h
      rcases List.mem_cons.1 h with rfl | h
      · have hhead := hrest head (hparts ▸ List.mem_cons_self)
        exact List.forall_mem_cons.2 ⟨⟨Bool.eq_false_iff.2 hfirst, List.mem_cons_self⟩, hhead⟩
      · exact hrest part (hparts ▸ List.mem_cons_of_mem head h)

/-! ## Words -/

/-- A word has characters, and none of them is blank. -/
def IsWord (s : List Char) : Prop := s ≠ [] ∧ ∀ c ∈ s, isBlank c = false

theorem isWord_of_mem_words {s word : List Char} (h : word ∈ words s) : IsWord word := by
  obtain ⟨hpart, hne⟩ := List.mem_filter.1 h
  exact ⟨by simpa using hne, fun c hc => (forall_mem_of_mem_splitOnP hpart c hc).1⟩

theorem mem_of_mem_words {s word : List Char} {c : Char} (h : word ∈ words s) (hc : c ∈ word) : c ∈ s :=
  (forall_mem_of_mem_splitOnP (List.mem_filter.1 h).1 c hc).2

/-- The words of a text are those in front of a blank and those behind it. -/
theorem words_append_blank {c : Char} (hc : isBlank c = true) (s t : List Char) :
    words (s ++ c :: t) = words s ++ words t := by
  rw [words, List.splitOnP_append_cons s t hc, List.filter_append]
  rfl

theorem words_word {s : List Char} (h : IsWord s) : words s = [s] := by
  rw [words, List.splitOnP_eq_singleton h.2]
  simpa using h.1

/-! ## Texts with spaces between words -/

section

variable {parts : List (List Char)}

theorem words_intercalate (h : ∀ part ∈ parts, IsWord part) : words ([' '].intercalate parts) = parts := by
  induction parts with
  | nil => rfl
  | cons first rest ih =>
    obtain ⟨hfirst, hrest⟩ := List.forall_mem_cons.1 h
    cases rest with
    | nil => rw [List.intercalate_singleton, words_word hfirst]
    | cons second rest =>
      rw [List.intercalate_cons_cons, List.append_assoc, List.singleton_append, words_append_blank (by decide),
        words_word hfirst, ih hrest, List.singleton_append]

theorem mem_intercalate {c : Char} (h : c ∈ [' '].intercalate parts) : c = ' ' ∨ ∃ part ∈ parts, c ∈ part := by
  induction parts with
  | nil => cases h
  | cons first rest ih =>
    cases rest with
    | nil =>
      rw [List.intercalate_singleton] at h
      exact Or.inr ⟨first, List.mem_cons_self, h⟩
    | cons second rest =>
      rw [List.intercalate_cons_cons, List.append_assoc, List.singleton_append] at h
      rcases List.mem_append.1 h with h | h
      · exact Or.inr ⟨first, List.mem_cons_self, h⟩
      rcases List.mem_cons.1 h with h | h
      · exact Or.inl h
      · exact (ih h).imp_right fun ⟨part, hpart, hc⟩ => ⟨part, List.mem_cons_of_mem first hpart, hc⟩

end

/-- The blanks of a text are spaces that stand by themselves between other characters. -/
structure IsSqueezed (s : List Char) : Prop where
  eq_space : ∀ c ∈ s, isBlank c = true → c = ' '
  head : ∀ c ∈ s.head?, isBlank c = false
  last : ∀ c ∈ s.getLast?, isBlank c = false
  apart : s.IsChain fun c d => isBlank c = true → isBlank d = false

namespace IsSqueezed

variable {s t : List Char}

theorem of_not_isBlank (h : ∀ c ∈ s, isBlank c = false) : IsSqueezed s where
  eq_space c hc hblank := by
    rw [h c hc] at hblank
    cases hblank
  head c hc := h c (List.mem_of_head? hc)
  last c hc := h c (List.mem_of_getLast? hc)
  apart := List.isChain_iff_getElem.2 fun _ _ _ => h _ (List.getElem_mem _)

/-- Two squeezed texts are joined by a space. -/
theorem join (hs : IsSqueezed s) (ht : IsSqueezed t) (hsne : s ≠ []) (htne : t ≠ []) : IsSqueezed (s ++ ' ' :: t) where
  eq_space c hc hblank := by
    rcases List.mem_append.1 hc with hc | hc
    · exact hs.eq_space c hc hblank
    rcases List.mem_cons.1 hc with hc | hc
    · exact hc
    · exact ht.eq_space c hc hblank
  head c hc := hs.head c (by rwa [List.head?_append_of_ne_nil s hsne] at hc)
  last c hc := by
    rw [List.getLast?_append_of_ne_nil _ (List.cons_ne_nil ' ' t), List.getLast?_cons_of_ne_nil htne] at hc
    exact ht.last c hc
  apart := by
    refine List.isChain_append.2 ⟨hs.apart, List.isChain_cons.2 ⟨fun d hd _ => ht.head d hd, ht.apart⟩, ?_⟩
    intro c hc d _ hblank
    rw [hs.last c hc] at hblank
    cases hblank

theorem intercalate {parts : List (List Char)} (h : ∀ part ∈ parts, IsWord part) :
    IsSqueezed ([' '].intercalate parts) := by
  induction parts with
  | nil => exact of_not_isBlank nofun
  | cons first rest ih =>
    obtain ⟨hfirst, hrest⟩ := List.forall_mem_cons.1 h
    cases rest with
    | nil =>
      rw [List.intercalate_singleton]
      exact of_not_isBlank hfirst.2
    | cons second rest =>
      have hne : [' '].intercalate (second :: rest) ≠ [] := by
        intro hnil
        have hwords := words_intercalate hrest
        rw [hnil] at hwords
        cases hwords
      rw [List.intercalate_cons_cons, List.append_assoc, List.singleton_append]
      exact (of_not_isBlank hfirst.2).join (ih hrest) hfirst.1 hne

end IsSqueezed

/-! ## Squeezing -/

/-- Squeezing a text leaves its words alone. -/
@[simp] theorem words_squeeze (s : List Char) : words (squeeze s) = words s :=
  words_intercalate fun _ => isWord_of_mem_words

@[simp] theorem squeeze_squeeze (s : List Char) : squeeze (squeeze s) = squeeze s := by
  rw [squeeze, words_squeeze, squeeze]

/-- Squeezing brings in nothing but spaces. -/
theorem mem_of_mem_squeeze {s : List Char} {c : Char} (h : c ∈ squeeze s) : c = ' ' ∨ c ∈ s :=
  (mem_intercalate h).imp_right fun ⟨_, hword, hc⟩ => mem_of_mem_words hword hc

theorem isSqueezed_squeeze (s : List Char) : IsSqueezed (squeeze s) := .intercalate fun _ => isWord_of_mem_words

end HeaderCatalog.Text
