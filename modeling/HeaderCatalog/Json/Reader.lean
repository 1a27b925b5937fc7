import HeaderCatalog.Json.Value
import HeaderCatalog.Text.Numeral

set_option autoImplicit false

/-!
# Reading JSON

A text is cut into lexemes, and the lexemes are run through a stack machine that knows which containers are open.
Both steps are total.  The grammar is that of the standard, with nothing added: no comments, no trailing commas, no byte
order mark, no leading zeros, nothing after the value.
-/

namespace HeaderCatalog.Json

/-! ## Lexemes -/

/-- The smallest parts of a JSON text. -/
inductive Lexeme where
  | openList
  | closeList
  | openObject
  | closeObject
  | comma
  | colon
  /-- A quoted text; `none` if it holds an unpaired surrogate. -/
  | text (value : Option String)
  /-- A number or a word. -/
  | atom (value : Json)

/-- The blanks between lexemes. -/
def isSpace (c : Char) : Bool := c == ' ' || c == '\t' || c == '\n' || c == '\r'

/-- The lexemes of one character. -/
def mark? : Char → Option Lexeme
  | '[' => some .openList
  | ']' => some .closeList
  | '{' => some .openObject
  | '}' => some .closeObject
  | ',' => some .comma
  | ':' => some .colon
  | _ => none

/-- The character that a backslash and a letter stand for. -/
def unescape? : Char → Option Nat
  | '"' => some 0x22
  | '\\' => some 0x5C
  | '/' => some 0x2F
  | 'b' => some 0x08
  | 'f' => some 0x0C
  | 'n' => some 0x0A
  | 'r' => some 0x0D
  | 't' => some 0x09
  | _ => none

/-- The units of a text up to its closing quote, and what follows the quote.  An escape with four digits is a unit of
its own, so a pair of surrogates is two. -/
def splitText : List Char → Option (List Nat × List Char)
  | [] => none
  | '"' :: rest => some ([], rest)
  | '\\' :: 'u' :: a :: b :: c :: d :: rest =>
    match Numeral.ofDigitsIn? 16 [a, b, c, d], splitText rest with
    | some unit, some (units, rest) => some (unit :: units, rest)
    | _, _ => none
  | '\\' :: e :: rest =>
    match unescape? e, splitText rest with
    | some unit, some (units, rest) => some (unit :: units, rest)
    | _, _ => none
  | c :: rest =>
    if c.toNat < 0x20 then none
    else match splitText rest with
      | some (units, rest) => some (c.toNat :: units, rest)
      | none => none

/-- The characters of a list of units; `none` if a surrogate has no partner. -/
def joinUnits : List Nat → Option (List Char)
  | [] => some []
  | [unit] => if 0xD800 ≤ unit && unit < 0xE000 then none else some [Char.ofNat unit]
  | unit :: next :: rest =>
    if 0xD800 ≤ unit && unit < 0xDC00 && 0xDC00 ≤ next && next < 0xE000 then
      (joinUnits rest).map (Char.ofNat (0x10000 + (unit - 0xD800) * 0x400 + (next - 0xDC00)) :: ·)
    else if 0xD800 ≤ unit && unit < 0xE000 then none
    else (joinUnits (next :: rest)).map (Char.ofNat unit :: ·)

/-- The characters that numbers and words are made of. -/
def isAtomChar (c : Char) : Bool := c.isAlphanum || c == '+' || c == '-' || c == '.'

/-- The rest of a run after the digits it begins with; `none` if it begins with none. -/
def afterDigits? (run : List Char) : Option (List Char) :=
  if (run.takeWhile Char.isDigit).isEmpty then none else some (run.dropWhile Char.isDigit)

/-- A run without the sign it may begin with. -/
def afterSign : List Char → List Char
  | '+' :: run => run
  | '-' :: run => run
  | run => run

/-- Whether a run is an exponent or empty. -/
def isExponent : List Char → Bool
  | [] => true
  | e :: run => (e == 'e' || e == 'E') && afterDigits? (afterSign run) == some []

/-- Whether a run is a fraction, an exponent, or both, and not empty. -/
def isInexact : List Char → Bool
  | [] => false
  | '.' :: run =>
    match afterDigits? run with
    | some rest => isExponent rest
    | none => false
  | run => isExponent run

/-- The number a run without a sign is. -/
def readMagnitude? (run : List Char) : Option Json :=
  let digits := run.takeWhile Char.isDigit
  let rest := run.dropWhile Char.isDigit
  if digits.isEmpty || (digits.head? == some '0' && digits.length != 1) then none
  else if rest.isEmpty then (Numeral.ofDigits? digits).map fun value => int value
  else if isInexact rest then some unread
  else none

/-- The number or word that a run is.  A minus sign before a lone zero makes no integer. -/
def readAtom? : List Char → Option Json
  | ['t', 'r', 'u', 'e'] => some (bool true)
  | ['f', 'a', 'l', 's', 'e'] => some (bool false)
  | ['n', 'u', 'l', 'l'] => some null
  | '-' :: run =>
    match readMagnitude? run with
    | some (int value) => some (if value = 0 then unread else int (-value))
    | other => other
  | run => readMagnitude? run

/-- What follows a quoted text is shorter than what it was cut from. -/
theorem length_splitText {s rest : List Char} {units : List Nat} (h : splitText s = some (units, rest)) :
    rest.length < s.length := by
  fun_induction splitText s generalizing units rest with
  | case1 => simp at h
  | case2 tail =>
    simp only [Option.some.injEq, Prod.mk.injEq] at h
    simp [h.2]
  | case3 a b c d tail unit units' tail' hrest hunit ih =>
    simp only [Option.some.injEq, Prod.mk.injEq] at h
    have := ih hrest
    simp only [List.length_cons, ← h.2]
    omega
  | case4 => simp at h
  | case5 e tail hne unit units' tail' hrest hunit ih =>
    simp only [Option.some.injEq, Prod.mk.injEq] at h
    have := ih hrest
    simp only [List.length_cons, ← h.2]
    omega
  | case6 => simp at h
  | case7 => simp at h
  | case8 c tail _ _ _ hlow units' tail' hrest ih =>
    simp only [Option.some.injEq, Prod.mk.injEq] at h
    have := ih hrest
    simp only [List.length_cons, ← h.2]
    omega
  | case9 => simp at h

/-- The lexemes of a text, if it is made of lexemes. -/
def lexemes? : List Char → Option (List Lexeme)
  | [] => some []
  | c :: rest =>
    if isSpace c then lexemes? rest
    else if c = '"' then
      match _split : splitText rest with
      | none => none
      | some (units, tail) => (lexemes? tail).map (.text ((joinUnits units).map String.ofList) :: ·)
    else if isAtomChar c then
      match readAtom? (c :: rest.takeWhile isAtomChar), lexemes? (rest.dropWhile isAtomChar) with
      | some value, some others => some (.atom value :: others)
      | _, _ => none
    else
      match mark? c, lexemes? rest with
      | some mark, some others => some (mark :: others)
      | _, _ => none
termination_by s => s.length
decreasing_by
  · simp
  · have := length_splitText _split
    simp only [List.length_cons]
    omega
  · have := (List.dropWhile_sublist (l := rest) isAtomChar).length_le
    simp only [List.length_cons]
    omega
  · simp

/-! ## Values -/

/-- A container that is open, with what it holds so far, the last first. -/
inductive Container where
  | list (items : List Json)
  /-- An object that waits for the value of a key. -/
  | object (entries : List (Option String × Json)) (key : Option String)

/-- What a reading waits for. -/
inductive Reading where
  /-- A value. -/
  | start (containers : List Container)
  /-- The first item of a list, or its end. -/
  | firstItem (containers : List Container)
  /-- The first key of an object, or its end. -/
  | firstKey (containers : List Container)
  /-- Another key of an object. -/
  | nextKey (entries : List (Option String × Json)) (containers : List Container)
  /-- The colon after a key. -/
  | colon (entries : List (Option String × Json)) (key : Option String) (containers : List Container)
  /-- A comma or the end of a list. -/
  | afterItem (items : List Json) (containers : List Container)
  /-- A comma or the end of an object. -/
  | afterEntry (entries : List (Option String × Json)) (containers : List Container)
  /-- Nothing more. -/
  | complete (value : Json)

/-- An object from its entries, the last first; of no use if a key is no text. -/
def objectOf (entries : List (Option String × Json)) : Json :=
  match entries.reverse.mapM fun (key, value) => key.map (·, value) with
  | some entries => .object entries
  | none => unread

/-- A value is done: it goes into the innermost open container. -/
def Reading.deliver (value : Json) : List Container → Reading
  | [] => complete value
  | .list items :: others => afterItem (value :: items) others
  | .object entries key :: others => afterEntry ((key, value) :: entries) others

/-- A value begins. -/
def Reading.begin? (containers : List Container) : Lexeme → Option Reading
  | .openList => some (firstItem containers)
  | .openObject => some (firstKey containers)
  | .text (some value) => some (deliver (.text value) containers)
  | .text none => some (deliver unread containers)
  | .atom value => some (deliver value containers)
  | _ => none

/-- One more lexeme is read. -/
def Reading.step? : Reading → Lexeme → Option Reading
  | start containers, lexeme => begin? containers lexeme
  | firstItem containers, .closeList => some (deliver (.list []) containers)
  | firstItem containers, lexeme => begin? (.list [] :: containers) lexeme
  | firstKey containers, .closeObject => some (deliver (.object []) containers)
  | firstKey containers, .text key => some (colon [] key containers)
  | nextKey entries containers, .text key => some (colon entries key containers)
  | colon entries key containers, .colon => some (start (.object entries key :: containers))
  | afterItem items containers, .comma => some (start (.list items :: containers))
  | afterItem items containers, .closeList => some (deliver (.list items.reverse) containers)
  | afterEntry entries containers, .comma => some (nextKey entries containers)
  | afterEntry entries containers, .closeObject => some (deliver (objectOf entries) containers)
  | _, _ => none

/-- The value that a text is, if it is one. -/
def parse? (s : String) : Option Json := do
  let lexemes ← lexemes? s.toList
  match ← lexemes.foldlM Reading.step? (.start []) with
  | .complete value => some value
  | _ => none

end HeaderCatalog.Json
