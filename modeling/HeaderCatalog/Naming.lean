import HeaderCatalog.Encoding.Record
import HeaderCatalog.Text.Blank
import HeaderCatalog.Text.Part
import HeaderCatalog.Text.Upper

set_option autoImplicit false

/-!
# Names and spellings

Headers name one thing in several ways: a selector has colons, a record may be spelled with keywords and qualifiers in
front, a generic class with its arguments.  This module reduces each to the name the catalogue uses.
-/

namespace HeaderCatalog.Naming

/-! ## Selectors -/

/-- The name of a method: the parts of its selector in camel case, the first part as it stands. -/
def ofSelector (selector : String) : String :=
  match (selector.toList.splitOn ':').filter (!·.isEmpty) with
  | [] => ""
  | first :: others => String.ofList (first ++ others.flatMap Text.capitalize)

/-! ## Records -/

/-- The words that may stand before the name of a type: qualifiers and keywords, each with its space. -/
def leadingWords : List (List Char) :=
  ["const ".toList, "volatile ".toList, "struct ".toList, "union ".toList, "enum ".toList]

/-- The text after the leading word it begins with, if it does. -/
def afterLeadingWord? (s : List Char) : Option (List Char) := leadingWords.findSome? (Text.after? · s)

/-- What comes after a leading word is shorter. -/
theorem length_afterLeadingWord? {s rest : List Char} (h : afterLeadingWord? s = some rest) :
    rest.length < s.length := by
  obtain ⟨word, hmem, hword⟩ := List.exists_of_findSome?_eq_some h
  have hpos : 0 < word.length := by
    simp only [leadingWords, List.mem_cons, List.not_mem_nil, or_false] at hmem
    rcases hmem with rfl | rfl | rfl | rfl | rfl <;> decide +kernel
  have hlength := Text.length_of_after? hword
  omega

/-- The text without the leading words it begins with, each with the blanks behind it. -/
def dropLeadingWords (s : List Char) : List Char :=
  match _rest : afterLeadingWord? s with
  | none => s
  | some rest => dropLeadingWords (Text.trimStart rest)
termination_by s.length
decreasing_by
  have h₁ := length_afterLeadingWord? _rest
  have h₂ : (Text.trimStart rest).length ≤ rest.length := (List.dropWhile_sublist _).length_le
  omega

/-- The name of a record or typedef in a spelling: no qualifiers, no keywords, no blanks around it. -/
def ofRecord (spelling : String) : String := String.ofList (dropLeadingWords (Text.trim spelling.toList))

/-- Whether a name is the front end's note that a record has none. -/
def isAnonymous (name : String) : Bool :=
  name.isEmpty || Text.holds "(anonymous".toList name.toList || Text.holds "(unnamed".toList name.toList

/-- The text without the repetitions of `const` and its space that it begins with. -/
def dropConst (s : List Char) : List Char :=
  match _rest : Text.after? "const ".toList s with
  | none => s
  | some rest => dropConst rest
termination_by s.length
decreasing_by
  have h₁ := Text.length_of_after? _rest
  have h₂ : "const ".toList.length = 6 := by decide +kernel
  omega

/-- The kind of record that an elaborated spelling names, constant or not. -/
def elaboratedRecord? (spelling : String) : Option RecordKind :=
  let s := Text.trimStart (dropConst spelling.toList)
  if "struct ".toList.isPrefixOf s then some .struct
  else if "union ".toList.isPrefixOf s then some .union
  else none

/-! ## Generic arguments -/

/-- The characters outside angle brackets, with `depth` brackets open.  A closing bracket without an opening one is a
character like any other. -/
def outsideBrackets : Nat → List Char → List Char
  | _, [] => []
  | depth, c :: rest =>
    if c = '<' then outsideBrackets (depth + 1) rest
    else if c = '>' ∧ 0 < depth then outsideBrackets (depth - 1) rest
    else if depth = 0 then c :: outsideBrackets depth rest
    else outsideBrackets depth rest

/-- A spelling without generic arguments and without repeated blanks. -/
def withoutArguments (spelling : String) : String :=
  String.ofList (Text.squeeze (outsideBrackets 0 spelling.toList))

end HeaderCatalog.Naming
