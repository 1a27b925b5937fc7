import HeaderCatalog.Naming

set_option autoImplicit false

/-!
# Names and the words before them

A record may be spelled with its keyword and with qualifiers in front, and it is still the record of that name: one
leading word in front of a spelling is taken off again (`ofRecord_word`).  The spelling must not be blank: nothing
would be left of it for the word to stand in front of.
-/

namespace HeaderCatalog

namespace Text

/-- Blanks at the end are taken off behind anything else. -/
theorem trimEnd_append {s t : List Char} (h : trimEnd t ≠ []) : trimEnd (s ++ t) = s ++ trimEnd t := by
  have hne : (t.reverse.dropWhile isBlank).isEmpty = false := by
    simpa [trimEnd] using h
  rw [trimEnd, List.reverse_append, List.dropWhile_append, hne, if_neg Bool.false_ne_true, List.reverse_append,
    List.reverse_reverse]
  rfl

/-- A first character is taken off at the end only if it is blank and nothing else is left. -/
theorem trimEnd_cons (c : Char) (s : List Char) :
    trimEnd (c :: s) = if trimEnd s = [] ∧ isBlank c = true then [] else c :: trimEnd s := by
  by_cases h : trimEnd s = []
  · have hrest : s.reverse.dropWhile isBlank = [] := by simpa [trimEnd] using h
    rw [h, trimEnd, List.reverse_cons, List.dropWhile_append, hrest]
    cases hc : isBlank c <;> simp [hc]
  · rw [if_neg fun hboth => h hboth.1]
    exact trimEnd_append (s := [c]) h

/-- It makes no difference which end is trimmed first. -/
theorem trimStart_trimEnd (s : List Char) : trimStart (trimEnd s) = trim s := by
  induction s with
  | nil => rfl
  | cons c rest ih =>
    by_cases hc : isBlank c = true
    · have hdrop (t : List Char) : trimStart (c :: t) = trimStart t := List.dropWhile_cons_of_pos hc
      rw [trim, hdrop, ← trim, ← ih, trimEnd_cons]
      split
      · next h => rw [h.1]
      · exact hdrop _
    · have hkeep (t : List Char) : trimStart (c :: t) = c :: t := List.dropWhile_cons_of_neg hc
      rw [trim, hkeep, trimEnd_cons, if_neg fun h => hc h.2, hkeep]

end Text

namespace Naming

theorem afterLeadingWord?_append {word : List Char} (h : word ∈ leadingWords) (s : List Char) :
    afterLeadingWord? (word ++ s) = some s := by
  simp only [leadingWords, List.mem_cons, List.not_mem_nil, or_false] at h
  rcases h with rfl | rfl | rfl | rfl | rfl <;> rfl

/-- A leading word is taken off with the blanks behind it. -/
theorem dropLeadingWords_append {word : List Char} (h : word ∈ leadingWords) (s : List Char) :
    dropLeadingWords (word ++ s) = dropLeadingWords (Text.trimStart s) := by
  rw [dropLeadingWords, afterLeadingWord?_append h]

theorem trimStart_word {word : List Char} (h : word ∈ leadingWords) (s : List Char) :
    Text.trimStart (word ++ s) = word ++ s := by
  simp only [leadingWords, List.mem_cons, List.not_mem_nil, or_false] at h
  rcases h with rfl | rfl | rfl | rfl | rfl <;> rfl

/-- A leading word in front of a spelling does not change the name. -/
theorem ofRecord_word {word : String} (hword : word.toList ∈ leadingWords) {spelling : String}
    (h : Text.trimEnd spelling.toList ≠ []) : ofRecord (word ++ spelling) = ofRecord spelling := by
  rw [ofRecord, ofRecord, String.toList_append, Text.trim, trimStart_word hword, Text.trimEnd_append h,
    dropLeadingWords_append hword, Text.trimStart_trimEnd]

/-- A blank spelling has no name. -/
theorem ofRecord_blank {spelling : String} (h : Text.trimEnd spelling.toList = []) : ofRecord spelling = "" := by
  rw [ofRecord, ← Text.trimStart_trimEnd, h]
  decide +kernel

theorem keyword_mem_leadingWords (kind : RecordKind) : (kind.keyword ++ " ").toList ∈ leadingWords := by
  cases kind <;> decide +kernel

theorem ofRecord_keyword (kind : RecordKind) {name : String} (hne : name ≠ "") (h : ofRecord name = name) :
    ofRecord (kind.keyword ++ " " ++ name) = name := by
  have hblank : Text.trimEnd name.toList ≠ [] := fun hblank => hne (h ▸ ofRecord_blank hblank)
  rw [ofRecord_word (keyword_mem_leadingWords kind) hblank, h]

end Naming

end HeaderCatalog
