set_option autoImplicit false

/-!
# Blank characters

Names, versions and spellings are trimmed and split at white space.  White space here is the Unicode property of
that name, not the six ASCII blanks: a front end may hand over any character.  Everything works on lists of
characters; what a trimming takes away is blank (`trimStart_append`), and neither end of a trimmed text is blank.
-/

namespace HeaderCatalog.Text

/-- The characters of the Unicode property `White_Space`. -/
def isBlank (c : Char) : Bool :=
  let n := c.toNat
  (0x09 ≤ n && n ≤ 0x0D) || n == 0x20 || n == 0x85 || n == 0xA0 || n == 0x1680 || (0x2000 ≤ n && n ≤ 0x200A)
    || n == 0x2028 || n == 0x2029 || n == 0x202F || n == 0x205F || n == 0x3000

/-- The text without its leading blanks. -/
def trimStart (s : List Char) : List Char := s.dropWhile isBlank

/-- The text without its trailing blanks. -/
def trimEnd (s : List Char) : List Char := (s.reverse.dropWhile isBlank).reverse

/-- The text without its leading and trailing blanks. -/
def trim (s : List Char) : List Char := trimEnd (trimStart s)

/-- The maximal runs of characters that are not blank, in order. -/
def words (s : List Char) : List (List Char) := (s.splitOnP isBlank).filter (!·.isEmpty)

/-- The words of a text with one space between neighbours: leading, trailing and repeated blanks are gone. -/
def squeeze (s : List Char) : List Char := [' '].intercalate (words s)

/-! ## Small facts -/

/-- Trimming at the front takes away blanks only. -/
theorem trimStart_append (s : List Char) : s.takeWhile isBlank ++ trimStart s = s :=
  List.takeWhile_append_dropWhile

/-- A text trimmed at the front does not start with a blank. -/
theorem head_trimStart {s : List Char} {c : Char} (h : (trimStart s).head? = some c) : isBlank c = false := by
  induction s with
  | nil => simp [trimStart] at h
  | cons d r ih =>
    by_cases hd : isBlank d = true
    · rw [trimStart, List.dropWhile_cons_of_pos hd] at h
      exact ih h
    · rw [trimStart, List.dropWhile_cons_of_neg hd] at h
      simp only [List.head?_cons, Option.some.injEq] at h
      subst h
      simpa using hd

/-- A text that starts with no blank is its own trimming at the front. -/
theorem trimStart_of_head {s : List Char} (h : ∀ c, s.head? = some c → isBlank c = false) : trimStart s = s := by
  cases s with
  | nil => rfl
  | cons d r => rw [trimStart, List.dropWhile_cons_of_neg (by simp [h d rfl])]

end HeaderCatalog.Text
