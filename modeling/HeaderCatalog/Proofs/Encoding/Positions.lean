import HeaderCatalog.Proofs.Encoding.Losses

set_option autoImplicit false

/-!
# Cutting by position

The tokens of a text once more, found with nothing but positions in the text and a count of open brackets.  A step that
can fail is `none` where it fails: a character behind the end of the text, a slice that does not lie within it, a count
below zero.  A loop that jumps ahead goes on only from a position with less of the text left than before, and is `none`
where it would stay in place.

No step fails and every loop gets ahead, whatever the text is, and the tokens are those of `tokens`
(`tokensByPosition?_eq_some`).  Each loop is followed from a position on by what is left of the text there (`RestAt`).
-/

namespace HeaderCatalog.Encoding

/-! ## Steps that may fail -/

/-- The part of a text from one position up to another, if it lies within the text. -/
def slice? (s : Encoding) (start stop : Nat) : Option Encoding :=
  if start ≤ stop ∧ stop ≤ s.length then some ((s.drop start).take (stop - start)) else none

/-- One less, if there is anything to take away from. -/
def oneLess? : Nat → Option Nat
  | 0 => none
  | count + 1 => some count

/-- How much of a text is left at a position. -/
def left (s : Encoding) (i : Nat) : Nat := s.length - i

/-- Within the text less is left further on. -/
theorem left_lt {s : Encoding} {i j : Nat} (h : i < s.length) (hlt : i < j) : left s j < left s i := by
  rw [left, left]
  omega

/-- The position behind the characters of a class that stand at a position. -/
def skip? (s : Encoding) (allowed : Char → Bool) (i : Nat) : Option Nat := do
  if i < s.length then
    let c ← s[i]?
    if allowed c then skip? s allowed (i + 1) else some i
  else some i
termination_by left s i
decreasing_by exact left_lt ‹_› (Nat.lt_succ_self _)

/-- The position behind a group, or the end of the text.  The search starts at the bracket that opens the group, with
a count of zero. -/
def groupEnd? (s : Encoding) (opening closing : Char) (depth : Nat) (quoted : Bool) (i : Nat) : Option Nat := do
  if i < s.length then
    let c ← s[i]?
    if c = '"' then groupEnd? s opening closing depth (!quoted) (i + 1)
    else if quoted then groupEnd? s opening closing depth quoted (i + 1)
    else if c = opening then groupEnd? s opening closing (depth + 1) quoted (i + 1)
    else if c = closing then
      let outer ← oneLess? depth
      if outer = 0 then some (i + 1) else groupEnd? s opening closing outer quoted (i + 1)
    else groupEnd? s opening closing depth quoted (i + 1)
  else some s.length
termination_by left s i
decreasing_by all_goals exact left_lt ‹_› (Nat.lt_succ_self _)

/-- The position behind the next quote, or the end of the text. -/
def quoteEnd? (s : Encoding) (i : Nat) : Option Nat := do
  let rest ← slice? s i s.length
  match rest.idxOf? '"' with
  | some offset => some (i + offset + 1)
  | none => some s.length

/-- The position behind a value without the qualifiers in front of it. -/
def valueEnd? (s : Encoding) (i : Nat) : Option Nat :=
  match s[i]? with
  | none => some i
  | some '^' => do
    let target ← skip? s isQualifier (i + 1)
    if left s target < left s i then valueEnd? s target else none
  | some '{' => groupEnd? s '{' '}' 0 false i
  | some '(' => groupEnd? s '(' ')' 0 false i
  | some '[' => groupEnd? s '[' ']' 0 false i
  | some '@' =>
    match s[i + 1]? with
    | some '"' => quoteEnd? s (i + 2)
    | some '?' => if s[i + 2]? = some '<' then groupEnd? s '<' '>' 0 false (i + 2) else some (i + 2)
    | _ => some (i + 1)
  | some 'b' => skip? s Char.isDigit (i + 1)
  | some _ => some (i + 1)
termination_by left s i

/-- The position behind a value with its qualifiers. -/
def qualifiedEnd? (s : Encoding) (i : Nat) : Option Nat := do
  let first ← skip? s isQualifier i
  valueEnd? s first

/-- The tokens of a text from a position on. -/
def tokensFrom? (s : Encoding) (i : Nat) : Option (List Encoding) := do
  if i < s.length then
    let c ← s[i]?
    if isOffset c then tokensFrom? s (i + 1)
    else
      let stop ← qualifiedEnd? s i
      let value ← slice? s i stop
      if left s stop < left s i then
        let others ← tokensFrom? s stop
        some (value :: others)
      else none
  else some []
termination_by left s i
decreasing_by
  · exact left_lt ‹_› (Nat.lt_succ_self _)
  · assumption

/-- The tokens of a text. -/
def tokensByPosition? (s : Encoding) : Option (List Encoding) := tokensFrom? s 0

/-! ## What is left at a position -/

/-- What is left of a text at a position within it. -/
def RestAt (s : Encoding) (i : Nat) (rest : Encoding) : Prop := ∃ before, s = before ++ rest ∧ i = before.length

namespace RestAt

variable {s rest t : Encoding} {i : Nat} {c : Char}

theorem zero (s : Encoding) : RestAt s 0 s := ⟨[], rfl, rfl⟩

theorem skip (h : RestAt s i (t ++ rest)) : RestAt s (i + t.length) rest := by
  obtain ⟨before, rfl, rfl⟩ := h
  exact ⟨before ++ t, (List.append_assoc before t rest).symm, List.length_append.symm⟩

theorem next (h : RestAt s i (c :: rest)) : RestAt s (i + 1) rest := h.skip (t := [c])

theorem length_eq (h : RestAt s i rest) : s.length = i + rest.length := by
  obtain ⟨before, rfl, rfl⟩ := h
  exact List.length_append

theorem lt (h : RestAt s i (c :: rest)) : i < s.length := by
  rw [h.length_eq, List.length_cons]
  omega

theorem not_lt (h : RestAt s i []) : ¬i < s.length := by
  rw [h.length_eq, List.length_nil]
  omega

theorem getElem? (h : RestAt s i rest) : s[i]? = rest.head? := by
  obtain ⟨before, rfl, rfl⟩ := h
  rw [List.getElem?_append_right (Nat.le_refl _), Nat.sub_self, List.head?_eq_getElem?]

/-- Within the text looking at a character succeeds. -/
theorem look {α : Type} (h : RestAt s i (c :: rest)) (next : Char → Option α) (otherwise : Option α) :
    (if i < s.length then s[i]? >>= next else otherwise) = next c := by
  rw [if_pos h.lt, h.getElem?]
  rfl

theorem slice? (h : RestAt s i (t ++ rest)) : slice? s i (i + t.length) = some t := by
  obtain ⟨before, rfl, rfl⟩ := h
  simp [Encoding.slice?]

end RestAt

/-! ## Following the loops -/

section

variable {s rest : Encoding} {i : Nat} {c : Char}

theorem skip?_eq (allowed : Char → Bool) (h : RestAt s i rest) :
    skip? s allowed i = some (i + (rest.takeWhile allowed).length) := by
  induction rest generalizing i with
  | nil =>
    rw [skip?, if_neg h.not_lt]
    rfl
  | cons c rest ih =>
    rw [skip?, h.look]
    by_cases hc : allowed c = true
    · rw [if_pos hc, ih h.next, List.takeWhile_cons_of_pos hc, List.length_cons, Nat.add_right_comm, Nat.add_assoc]
    · rw [if_neg hc, List.takeWhile_cons_of_neg hc]
      rfl

/-- With one more character kept, the end is as far behind the next position as it was behind this one. -/
theorem add_length_keep (c : Char) (parts : Encoding × Encoding) (i : Nat) :
    i + (keep c parts).1.length = i + 1 + parts.1.length := by
  rw [keep_fst, List.length_cons, Nat.add_right_comm, Nat.add_assoc]

/-- Inside a group the count is never zero, so that it can always be lowered. -/
theorem groupEnd?_eq {opening closing : Char} (depth : Nat) (quoted : Bool) (h : RestAt s i rest) :
    groupEnd? s opening closing (depth + 1) quoted i =
      some (i + (splitGroup opening closing (depth + 1) quoted rest).1.length) := by
  induction rest generalizing i depth quoted with
  | nil =>
    rw [groupEnd?, if_neg h.not_lt, h.length_eq]
    rfl
  | cons c rest ih =>
    have hnext : ∀ depth quoted, groupEnd? s opening closing (depth + 1) quoted (i + 1) =
        some (i + (keep c (splitGroup opening closing (depth + 1) quoted rest)).1.length) := by
      intro depth quoted
      rw [ih depth quoted h.next, add_length_keep]
    rw [groupEnd?, h.look, splitGroup]
    by_cases hquote : c = '"'
    · rw [if_pos hquote, if_pos hquote, hnext]
    rw [if_neg hquote, if_neg hquote]
    by_cases hquoted : quoted = true
    · rw [if_pos hquoted, if_pos hquoted, hnext]
    rw [if_neg hquoted, if_neg hquoted]
    by_cases hopening : c = opening
    · rw [if_pos hopening, if_pos hopening, hnext]
    rw [if_neg hopening, if_neg hopening]
    by_cases hclosing : c = closing
    · rw [if_pos hclosing, if_pos hclosing]
      cases depth with
      | zero => rfl
      | succ depth =>
        rw [if_neg (by omega)]
        exact hnext depth quoted
    · rw [if_neg hclosing, if_neg hclosing, hnext]

/-- The bracket that opens a group is the first to be counted. -/
theorem groupEnd?_opening {opening closing : Char} (hbrackets : (opening, closing) ∈ brackets)
    (h : RestAt s i (opening :: rest)) :
    groupEnd? s opening closing 0 false i =
      some (i + (keep opening (splitGroup opening closing 1 false rest)).1.length) := by
  obtain ⟨hquote, -, -⟩ := ne_of_mem_brackets hbrackets
  rw [groupEnd?, h.look, if_neg hquote, if_neg Bool.false_ne_true, if_pos rfl, groupEnd?_eq 0 false h.next,
    add_length_keep]

theorem length_splitQuote_fst (s : Encoding) :
    (splitQuote s).1.length = match s.idxOf? '"' with
      | some offset => offset + 1
      | none => s.length := by
  induction s with
  | nil => rfl
  | cons c s ih =>
    rw [splitQuote, List.idxOf?_cons]
    by_cases hquote : c = '"'
    · rw [if_pos hquote, if_pos (beq_iff_eq.2 hquote)]
      rfl
    · rw [if_neg hquote, if_neg (mt beq_iff_eq.1 hquote), keep_fst, List.length_cons, ih]
      cases s.idxOf? '"' <;> rfl

theorem quoteEnd?_eq (h : RestAt s i rest) : quoteEnd? s i = some (i + (splitQuote rest).1.length) := by
  have hrest : RestAt s i (rest ++ []) := by rwa [List.append_nil]
  have hslice : slice? s i s.length = some rest := h.length_eq ▸ hrest.slice?
  rw [quoteEnd?, hslice, Option.bind_eq_bind, Option.bind_some, length_splitQuote_fst, h.length_eq]
  cases rest.idxOf? '"' <;> rfl

/-- A value without lead ends where its body ends. -/
theorem valueEnd?_body (h : RestAt s i (c :: rest)) (hlead : isLead c = false) :
    valueEnd? s i = some (i + (splitBody (c :: rest)).1.length) := by
  have hmark : c ≠ '^' := by
    rintro rfl
    revert hlead
    decide
  generalize htext : c :: rest = text at h
  rw [valueEnd?, h.getElem?]
  fun_cases splitBody text with
  | case1 => cases htext
  | case2 rest => exact groupEnd?_opening (by decide) h
  | case3 rest => exact groupEnd?_opening (by decide) h
  | case4 rest => exact groupEnd?_opening (by decide) h
  | case5 rest =>
    simp only [List.head?_cons, h.next.getElem?, quoteEnd?_eq h.next.next, add_length_keep]
  | case6 rest =>
    have hgroup : groupEnd? s '<' '>' 0 false (i + 2) = _ := groupEnd?_opening (by decide) h.next.next
    simp only [List.head?_cons, h.next.getElem?, h.next.next.getElem?, if_pos, hgroup, add_length_keep]
  | case7 rest hangle =>
    have hhead : rest.head? ≠ some '<' := fun hhead => by
      obtain ⟨t, rfl⟩ := List.head?_eq_some_iff.1 hhead
      exact hangle t rfl
    simp only [List.head?_cons, h.next.getElem?, h.next.next.getElem?, if_neg hhead]
    rfl
  | case8 rest =>
    simp only [List.head?_cons, skip?_eq _ h.next, List.length_cons]
    congr 1
    omega
  | case9 c rest hbrace hparen hsquare hquote hangle hblock hbit =>
    cases htext
    by_cases hobject : c = '@'
    · subst hobject
      simp only [List.head?_cons, h.next.getElem?]
      -- neither a quote nor a question mark comes next, or the value would be one of those above
      split
      · next hhead =>
        obtain ⟨t, rfl⟩ := List.head?_eq_some_iff.1 hhead
        exact absurd rfl (hquote t rfl)
      · next hhead =>
        obtain ⟨t, rfl⟩ := List.head?_eq_some_iff.1 hhead
        exact absurd rfl (hblock t rfl)
      · rfl
    · rw [List.head?_cons]
      split <;> simp_all

/-- A value with its qualifiers ends where it is split off. -/
theorem qualifiedEnd?_eq (h : RestAt s i rest) : qualifiedEnd? s i = some (i + (splitValue rest).1.length) := by
  -- on the length, because qualifiers may come again behind each pointer mark
  induction hlength : rest.length using Nat.strong_induction_on generalizing i rest with
  | h length ih =>
    subst hlength
    obtain ⟨qualifiers, behind, hqualifiers, hbehind⟩ :
        ∃ qualifiers behind, rest.takeWhile isQualifier = qualifiers ∧ rest.dropWhile isQualifier = behind :=
      ⟨_, _, rfl, rfl⟩
    have happend : rest = qualifiers ++ behind := by
      rw [← hqualifiers, ← hbehind, List.takeWhile_append_dropWhile]
    have hlead : ∀ c ∈ qualifiers, isLead c = true := by
      intro c hc
      rw [← hqualifiers] at hc
      simp [isLead, List.mem_takeWhile_imp hc]
    have hrest : RestAt s (i + qualifiers.length) behind := (happend ▸ h).skip
    rw [qualifiedEnd?, skip?_eq isQualifier h, hqualifiers, happend, splitValue_append_lead hlead, keepAll,
      List.length_append, ← Nat.add_assoc]
    change valueEnd? s (i + qualifiers.length) = _
    cases behind with
    | nil =>
      rw [valueEnd?, hrest.getElem?]
      rfl
    | cons c target =>
      by_cases hmark : c = '^'
      · subst hmark
        have hshorter : target.length < rest.length := by
          rw [happend, List.length_append, List.length_cons]
          omega
        have htarget := ih target.length hshorter hrest.next rfl
        rw [qualifiedEnd?, skip?_eq isQualifier hrest.next, Option.bind_eq_bind, Option.bind_some] at htarget
        rw [valueEnd?, hrest.getElem?, splitValue_lead (by decide), add_length_keep]
        simp only [List.head?_cons, skip?_eq isQualifier hrest.next, Option.bind_eq_bind, Option.bind_some]
        rw [if_pos (left_lt hrest.lt (by omega)), htarget]
      · have hhead := List.head?_dropWhile_not isQualifier rest
        rw [hbehind] at hhead
        have hc : isLead c = false := by
          have hqualifier : isQualifier c = false := hhead
          simp [isLead, hqualifier, hmark]
        rw [valueEnd?_body hrest hc, splitValue_body hc]

theorem tokensFrom?_eq (h : RestAt s i rest) : tokensFrom? s i = some (tokens rest) := by
  fun_induction tokens rest generalizing i with
  | case1 => rw [tokensFrom?, if_neg h.not_lt]
  | case2 c rest hoffset ih => rw [tokensFrom?, h.look, if_pos hoffset, ih h.next]
  | case3 c rest hoffset ih =>
    have hvalue : RestAt s i ((splitValue (c :: rest)).1 ++ (splitValue (c :: rest)).2) := by
      rwa [splitValue_append]
    have hlength : 0 < (splitValue (c :: rest)).1.length := List.length_pos_of_ne_nil (splitValue_ne_nil c rest)
    rw [tokensFrom?, h.look, if_neg hoffset, qualifiedEnd?_eq h, Option.bind_eq_bind, Option.bind_some, hvalue.slice?,
      Option.bind_eq_bind, Option.bind_some, if_pos (left_lt h.lt (by omega)), ih hvalue.skip]
    rfl

end

/-- **Cutting never fails.**  By position, every text is cut into its tokens: no step fails and every loop ends.  The
tokens are a partition of the text up to offsets. -/
theorem tokensByPosition?_eq_some (s : Encoding) :
    tokensByPosition? s = some (tokens s) ∧ IsPartition s (tokens s) :=
  ⟨tokensFrom?_eq (.zero s), isPartition_tokens s⟩

end HeaderCatalog.Encoding
