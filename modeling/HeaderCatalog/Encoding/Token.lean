set_option autoImplicit false

/-!
# Type encodings and their tokens

A runtime type encoding is a sequence of one-character codes.  One encoded value is a run of qualifiers and pointer
marks, the *lead*, followed by a *body*:

    body := code | [ digits value ] | (name = value ...) | @ | @"class" | @? | @?< signature > | b digits

and the bracketed form of records.  Frame offsets (digits and minus signs) may stand between values.  `tokens` cuts
an encoding into its values.  It is total: a group or a quote that is never closed extends to the end of the text, and
nothing but offsets between values is lost (`splitValue_append`).
-/

namespace HeaderCatalog

/-- A runtime type encoding, or any text read as one. -/
abbrev Encoding := List Char

namespace Encoding

/-- The qualifier codes: constant, in, inout, out, by copy, by reference, one way, atomic and complex. -/
def isQualifier (c : Char) : Bool :=
  c == 'r' || c == 'n' || c == 'N' || c == 'o' || c == 'O' || c == 'R' || c == 'V' || c == 'A' || c == 'j'

/-- The characters of a frame offset. -/
def isOffset (c : Char) : Bool := c.isDigit || c == '-'

/-- The characters that may stand before the body of a value: qualifiers and pointer marks. -/
def isLead (c : Char) : Bool := isQualifier c || c == '^'

/-- Prepends a character to the first part of a split. -/
def keep (c : Char) (split : Encoding × Encoding) : Encoding × Encoding := (c :: split.1, split.2)

/-- Splits a text after the bracket that closes the group it is in.  `depth` counts the open brackets of this kind;
between quotes no bracket counts.  Without a closing bracket the whole text is the group. -/
def splitGroup (opening closing : Char) : Nat → Bool → Encoding → Encoding × Encoding
  | _, _, [] => ([], [])
  | depth, quoted, c :: rest =>
    if c = '"' then keep c (splitGroup opening closing depth (!quoted) rest)
    else if quoted then keep c (splitGroup opening closing depth quoted rest)
    else if c = opening then keep c (splitGroup opening closing (depth + 1) quoted rest)
    else if c = closing then
      if depth ≤ 1 then ([c], rest) else keep c (splitGroup opening closing (depth - 1) quoted rest)
    else keep c (splitGroup opening closing depth quoted rest)

/-- Splits a text after the next quote, or at its end if there is none. -/
def splitQuote : Encoding → Encoding × Encoding
  | [] => ([], [])
  | c :: rest => if c = '"' then ([c], rest) else keep c (splitQuote rest)

/-- Splits a text after the body of the value it starts with. -/
def splitBody : Encoding → Encoding × Encoding
  | [] => ([], [])
  | '{' :: rest => keep '{' (splitGroup '{' '}' 1 false rest)
  | '(' :: rest => keep '(' (splitGroup '(' ')' 1 false rest)
  | '[' :: rest => keep '[' (splitGroup '[' ']' 1 false rest)
  | '@' :: '"' :: rest => keep '@' (keep '"' (splitQuote rest))
  | '@' :: '?' :: '<' :: rest => keep '@' (keep '?' (keep '<' (splitGroup '<' '>' 1 false rest)))
  | '@' :: '?' :: rest => (['@', '?'], rest)
  | 'b' :: rest => ('b' :: rest.takeWhile Char.isDigit, rest.dropWhile Char.isDigit)
  | c :: rest => ([c], rest)

/-- Splits a text after the value it starts with. -/
def splitValue (s : Encoding) : Encoding × Encoding :=
  let body := splitBody (s.dropWhile isLead)
  (s.takeWhile isLead ++ body.1, body.2)

/-! ## What a split keeps -/

@[simp] theorem keep_fst (c : Char) (p : Encoding × Encoding) : (keep c p).1 = c :: p.1 := rfl

@[simp] theorem keep_snd (c : Char) (p : Encoding × Encoding) : (keep c p).2 = p.2 := rfl

/-- Splitting a group loses nothing. -/
theorem splitGroup_append (opening closing : Char) (depth : Nat) (quoted : Bool) (s : Encoding) :
    (splitGroup opening closing depth quoted s).1 ++ (splitGroup opening closing depth quoted s).2 = s := by
  induction s generalizing depth quoted with
  | nil => rfl
  | cons c rest ih =>
    unfold splitGroup
    split
    · simp [ih]
    split
    · simp [ih]
    split
    · simp [ih]
    split
    · split <;> simp [ih]
    · simp [ih]

/-- Splitting at a quote loses nothing. -/
theorem splitQuote_append (s : Encoding) : (splitQuote s).1 ++ (splitQuote s).2 = s := by
  induction s with
  | nil => rfl
  | cons c rest ih =>
    unfold splitQuote
    split <;> simp [ih]

/-- Splitting off a body loses nothing. -/
theorem splitBody_append (s : Encoding) : (splitBody s).1 ++ (splitBody s).2 = s := by
  unfold splitBody
  split <;> simp [splitGroup_append, splitQuote_append]

/-- A body takes at least one character of a text that has one. -/
theorem splitBody_ne_nil (c : Char) (rest : Encoding) : (splitBody (c :: rest)).1 ≠ [] := by
  unfold splitBody
  split <;> simp_all

/-- Splitting off a value loses nothing. -/
theorem splitValue_append (s : Encoding) : (splitValue s).1 ++ (splitValue s).2 = s := by
  simp [splitValue, splitBody_append]

/-- A value takes at least one character of a text that has one. -/
theorem splitValue_ne_nil (c : Char) (rest : Encoding) : (splitValue (c :: rest)).1 ≠ [] := by
  unfold splitValue
  by_cases h : isLead c = true
  · simp [List.takeWhile_cons_of_pos h]
  · simp [List.takeWhile_cons_of_neg h, List.dropWhile_cons_of_neg h, splitBody_ne_nil]

/-- What follows a value is shorter than the text that starts with it. -/
theorem length_splitValue_snd (c : Char) (rest : Encoding) :
    (splitValue (c :: rest)).2.length < (c :: rest).length := by
  have h := congrArg List.length (splitValue_append (c :: rest))
  have hpos := List.length_pos_iff.2 (splitValue_ne_nil c rest)
  rw [List.length_append] at h
  omega

/-! ## Tokens -/

/-- The encoded values of a text in order, each with its qualifiers; offsets between values are dropped. -/
def tokens : Encoding → List Encoding
  | [] => []
  | c :: rest =>
    if isOffset c then tokens rest
    else (splitValue (c :: rest)).1 :: tokens (splitValue (c :: rest)).2
termination_by s => s.length
decreasing_by
  · simp
  · exact length_splitValue_snd c rest

@[simp] theorem tokens_nil : tokens [] = [] := by rw [tokens]

/-- An offset character between values is skipped. -/
theorem tokens_offset {c : Char} (h : isOffset c = true) (rest : Encoding) : tokens (c :: rest) = tokens rest := by
  rw [tokens, if_pos h]

/-- Any other character starts a value. -/
theorem tokens_value {c : Char} (h : isOffset c = false) (rest : Encoding) :
    tokens (c :: rest) = (splitValue (c :: rest)).1 :: tokens (splitValue (c :: rest)).2 := by
  rw [tokens, if_neg (by simp [h])]

/-- A token is no longer than the text it is cut from. -/
theorem length_le_of_mem_tokens {s t : Encoding} (h : t ∈ tokens s) : t.length ≤ s.length := by
  fun_induction tokens s with
  | case1 => simp at h
  | case2 c rest _ ih => exact Nat.le_trans (ih h) (by simp)
  | case3 c rest _ ih =>
    have hsplit := congrArg List.length (splitValue_append (c :: rest))
    rw [List.length_append] at hsplit
    rcases List.mem_cons.1 h with rfl | h
    · omega
    · have := ih h
      omega

/-! ## Parts of a method encoding -/

/-- The value that a method or block returns: the first of its encoding. -/
def returned? (s : Encoding) : Option Encoding := (tokens s).head?

/-- The arguments of a method: what follows the returned value, the receiver and the selector. -/
def methodArguments (s : Encoding) : List Encoding := (tokens s).drop 3

end Encoding

end HeaderCatalog
