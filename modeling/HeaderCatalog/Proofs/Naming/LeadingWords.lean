import HeaderCatalog.Proofs.Naming

set_option autoImplicit false

/-!
# Words in front of a name

Any number of leading words may stand in front of a name, in any order, each with a space and further blanks behind it
(`Lead`, `prefaced`).  A name that is bare has no such word in front and no blanks around it (`IsBare`).

One reading takes off all that stands in front: a name is read through its leads (`ofRecord_prefaced`), what is read is
bare (`isBare_ofRecord`), and the bare names are those that are read as they stand (`ofRecord_eq_self_iff`).  Nothing
else is taken off than leads and the blanks around the spelling (`exists_prefaced_ofRecord`).
-/

namespace HeaderCatalog

/-! ## Trimmed texts -/

namespace Text

/-- A text is trimmed if it neither starts nor ends with a blank. -/
structure IsTrimmed (s : List Char) : Prop where
  head : ∀ c ∈ s.head?, isBlank c = false
  last : ∀ c ∈ s.getLast?, isBlank c = false

theorem isTrimmed_trim (s : List Char) : IsTrimmed (trim s) where
  head c hc := by
    rw [← trimStart_trimEnd] at hc
    exact head_trimStart hc
  last c hc := by
    rw [trim, trimEnd, List.getLast?_reverse] at hc
    exact head_trimStart hc

namespace IsTrimmed

variable {s : List Char}

theorem trimEnd_eq (h : IsTrimmed s) : trimEnd s = s := by
  have hreverse : trimStart s.reverse = s.reverse :=
    trimStart_of_head fun c hc => h.last c (by rwa [List.head?_reverse] at hc)
  rw [trimEnd, ← trimStart, hreverse, List.reverse_reverse]

theorem trim_eq (h : IsTrimmed s) : trim s = s := by
  rw [trim, trimStart_of_head h.head, h.trimEnd_eq]

/-- What is left of a trimmed text behind its beginning is trimmed once its own leading blanks are gone. -/
theorem trimStart_of_append {front : List Char} (h : IsTrimmed (front ++ s)) : IsTrimmed (trimStart s) where
  head _ hc := head_trimStart hc
  last c hc := by
    refine h.last c ?_
    rw [← trimStart_append s, ← List.append_assoc, List.getLast?_append, Option.mem_def.1 hc]
    rfl

end IsTrimmed

/-- The trimmed texts are those that trimming leaves alone. -/
theorem isTrimmed_iff {s : List Char} : IsTrimmed s ↔ trim s = s := by
  constructor
  · exact IsTrimmed.trim_eq
  · intro h
    rw [← h]
    exact isTrimmed_trim s

/-- There is nothing after a beginning that a text does not have. -/
theorem after?_eq_none_iff {p s : List Char} : after? p s = none ↔ ¬ p <+: s := by
  constructor
  · rintro h ⟨rest, rfl⟩
    rw [after?_append] at h
    cases h
  · intro h
    cases hafter : after? p s with
    | none => rfl
    | some rest => exact absurd ⟨rest, (eq_append_of_after? hafter).symm⟩ h

end Text

namespace Naming

/-! ## Leads -/

/-- A word that may stand in front of the name of a type. -/
inductive LeadingWord where
  | const
  | volatile
  | struct
  | union
  | enum
  deriving DecidableEq, Repr

/-- A leading word as it is spelled. -/
def LeadingWord.spelling : LeadingWord → String
  | const => "const"
  | volatile => "volatile"
  | struct => "struct"
  | union => "union"
  | enum => "enum"

/-- A leading word with the space behind it and the blanks that follow the space. -/
structure Lead where
  word : LeadingWord
  blanks : String
  all_blank : blanks.toList.all Text.isBlank = true

/-- A lead as it stands in a spelling. -/
def Lead.text (lead : Lead) : String := lead.word.spelling ++ " " ++ lead.blanks

/-- A spelling with leads in front. -/
def prefaced : List Lead → String → String
  | [], spelling => spelling
  | lead :: rest, spelling => lead.text ++ prefaced rest spelling

/-- A name is bare if it has no blanks around it and starts with no leading word and its space. -/
structure IsBare (name : String) : Prop where
  trimmed : Text.IsTrimmed name.toList
  not_leading : ∀ word : LeadingWord, ¬ (word.spelling ++ " ").toList <+: name.toList

/-- The words that are looked for in front of a name, each with its space, are the leading words. -/
theorem mem_leadingWords_iff {s : List Char} :
    s ∈ leadingWords ↔ ∃ word : LeadingWord, s = (word.spelling ++ " ").toList := by
  constructor
  · intro h
    simp only [leadingWords, List.mem_cons, List.not_mem_nil, or_false] at h
    rcases h with rfl | rfl | rfl | rfl | rfl
    · exact ⟨.const, rfl⟩
    · exact ⟨.volatile, rfl⟩
    · exact ⟨.struct, rfl⟩
    · exact ⟨.union, rfl⟩
    · exact ⟨.enum, rfl⟩
  · rintro ⟨word, rfl⟩
    cases word <;> decide +kernel

theorem afterLeadingWord?_eq_none_iff {s : List Char} :
    afterLeadingWord? s = none ↔ ∀ word : LeadingWord, ¬ (word.spelling ++ " ").toList <+: s := by
  rw [afterLeadingWord?, List.findSome?_eq_none_iff]
  constructor
  · intro h word
    exact Text.after?_eq_none_iff.1 (h _ (mem_leadingWords_iff.2 ⟨word, rfl⟩))
  · intro h front hfront
    obtain ⟨word, rfl⟩ := mem_leadingWords_iff.1 hfront
    exact Text.after?_eq_none_iff.2 (h word)

theorem exists_word_of_afterLeadingWord? {s rest : List Char} (h : afterLeadingWord? s = some rest) :
    ∃ word : LeadingWord, s = (word.spelling ++ " ").toList ++ rest := by
  obtain ⟨front, hfront, hafter⟩ := List.exists_of_findSome?_eq_some h
  obtain ⟨word, rfl⟩ := mem_leadingWords_iff.1 hfront
  exact ⟨word, Text.eq_append_of_after? hafter⟩

/-! ## Reading through leads -/

/-- Blanks in front of a spelling do not change the name. -/
theorem ofRecord_blanks {blanks : String} (h : blanks.toList.all Text.isBlank = true) (spelling : String) :
    ofRecord (blanks ++ spelling) = ofRecord spelling := by
  have htrim : Text.trimStart (blanks.toList ++ spelling.toList) = Text.trimStart spelling.toList :=
    List.dropWhile_append_of_pos (List.all_eq_true.1 h)
  rw [ofRecord, String.toList_append, Text.trim, htrim, ← Text.trim, ← ofRecord]

section

variable {spelling : String} (h : Text.trimEnd spelling.toList ≠ [])
include h

theorem trimEnd_prefaced (leads : List Lead) : Text.trimEnd (prefaced leads spelling).toList ≠ [] := by
  induction leads with
  | nil => exact h
  | cons lead rest ih =>
    rw [prefaced, String.toList_append, Text.trimEnd_append ih]
    exact List.append_ne_nil_of_right_ne_nil _ ih

/-- Leads in front of a spelling do not change the name.  The spelling must not be blank: the last lead would have
nothing to stand in front of. -/
theorem ofRecord_prefaced (leads : List Lead) : ofRecord (prefaced leads spelling) = ofRecord spelling := by
  induction leads with
  | nil => rfl
  | cons lead rest ih =>
    have hrest := trimEnd_prefaced h rest
    have hblanks : Text.trimEnd (lead.blanks ++ prefaced rest spelling).toList ≠ [] := by
      rw [String.toList_append, Text.trimEnd_append hrest]
      exact List.append_ne_nil_of_right_ne_nil _ hrest
    rw [prefaced, Lead.text, String.append_assoc, ofRecord_word (mem_leadingWords_iff.2 ⟨lead.word, rfl⟩) hblanks,
      ofRecord_blanks lead.all_blank, ih]

end

/-! ## What is left -/

theorem afterLeadingWord?_dropLeadingWords (s : List Char) : afterLeadingWord? (dropLeadingWords s) = none := by
  fun_induction dropLeadingWords s with
  | case1 s hnone => exact hnone
  | case2 s rest _ ih => exact ih

theorem isTrimmed_dropLeadingWords {s : List Char} (h : Text.IsTrimmed s) : Text.IsTrimmed (dropLeadingWords s) := by
  fun_induction dropLeadingWords s with
  | case1 s _ => exact h
  | case2 s rest hrest ih =>
    obtain ⟨word, rfl⟩ := exists_word_of_afterLeadingWord? hrest
    exact ih h.trimStart_of_append

/-- What is taken off in front of a text is a list of leads. -/
theorem exists_prefaced_dropLeadingWords (s : List Char) :
    ∃ leads, s = (prefaced leads (String.ofList (dropLeadingWords s))).toList := by
  fun_induction dropLeadingWords s with
  | case1 s _ => exact ⟨[], String.toList_ofList.symm⟩
  | case2 s rest hrest ih =>
    obtain ⟨leads, hleads⟩ := ih
    obtain ⟨word, hword⟩ := exists_word_of_afterLeadingWord? hrest
    have hblanks : (String.ofList (rest.takeWhile Text.isBlank)).toList.all Text.isBlank = true := by
      rw [String.toList_ofList]
      exact List.all_takeWhile
    refine ⟨⟨word, _, hblanks⟩ :: leads, ?_⟩
    rw [prefaced, Lead.text, String.toList_append, ← hleads, String.toList_append, String.toList_ofList,
      List.append_assoc, Text.trimStart_append, ← hword]

theorem toList_ofRecord (spelling : String) :
    (ofRecord spelling).toList = dropLeadingWords (Text.trim spelling.toList) := String.toList_ofList

theorem isBare_ofRecord (spelling : String) : IsBare (ofRecord spelling) where
  trimmed := by
    rw [toList_ofRecord]
    exact isTrimmed_dropLeadingWords (Text.isTrimmed_trim _)
  not_leading := by
    rw [toList_ofRecord]
    exact afterLeadingWord?_eq_none_iff.1 (afterLeadingWord?_dropLeadingWords _)

/-- The bare names are those that are read as they stand. -/
theorem ofRecord_eq_self_iff {name : String} : ofRecord name = name ↔ IsBare name := by
  constructor
  · intro h
    rw [← h]
    exact isBare_ofRecord name
  · intro h
    have hdrop : dropLeadingWords name.toList = name.toList := by
      rw [dropLeadingWords, afterLeadingWord?_eq_none_iff.2 h.not_leading]
    rw [ofRecord, h.trimmed.trim_eq, hdrop, String.ofList_toList]

/-- Nothing else is taken off than blanks around a spelling and leads. -/
theorem exists_prefaced_ofRecord (spelling : String) :
    ∃ leads, Text.trim spelling.toList = (prefaced leads (ofRecord spelling)).toList :=
  exists_prefaced_dropLeadingWords _

/-- **A spelling is reduced in one reading.**  A bare name is read through leads of any kind, order and number, and what
is read of any spelling is bare, so reading it once more changes nothing.  Blanks around the spelling and leads are all
that is taken off. -/
theorem ofRecord_reduces :
    (∀ (leads : List Lead) (name : String), name ≠ "" → IsBare name → ofRecord (prefaced leads name) = name) ∧
    ∀ spelling : String,
      IsBare (ofRecord spelling) ∧ ofRecord (ofRecord spelling) = ofRecord spelling ∧
        ∃ leads, Text.trim spelling.toList = (prefaced leads (ofRecord spelling)).toList := by
  constructor
  · intro leads name hne hbare
    have hblank : Text.trimEnd name.toList ≠ [] := by
      rw [hbare.trimmed.trimEnd_eq]
      exact fun hnil => hne (String.toList_eq_nil_iff.1 hnil)
    rw [ofRecord_prefaced hblank leads, ofRecord_eq_self_iff.2 hbare]
  · intro spelling
    have hbare := isBare_ofRecord spelling
    exact ⟨hbare, ofRecord_eq_self_iff.2 hbare, exists_prefaced_ofRecord spelling⟩

/-- Keywords between qualifiers, one of them twice, with tabs and no-break spaces behind them, in front of a name that
starts like a leading word and has others inside. -/
theorem ofRecord_reduces_mixed :
    "constant enum union" ≠ "" ∧ IsBare "constant enum union" ∧
      ofRecord (prefaced [⟨.volatile, "\t", rfl⟩, ⟨.struct, "", rfl⟩, ⟨.const, "  \u00a0", rfl⟩, ⟨.enum, "\n", rfl⟩,
        ⟨.volatile, " ", rfl⟩] "constant enum union") = "constant enum union" :=
  have hbare : IsBare "constant enum union" :=
    { trimmed := Text.isTrimmed_iff.2 (by decide +kernel)
      not_leading := fun word => by cases word <;> decide +kernel }
  ⟨by decide, hbare, ofRecord_reduces.1 _ _ (by decide) hbare⟩

end Naming

end HeaderCatalog
