import HeaderCatalog.Json.Value
import HeaderCatalog.Text.Numeral

set_option autoImplicit false

/-!
# Printing JSON

One printer with two layouts.  The compact layout has no blanks; the indented one puts every item on a line of its
own, two blanks deeper than its container, and an empty container on one line.  Quotes, backslashes and control
characters are escaped, everything else is written as it is.
-/

namespace HeaderCatalog.Json

/-- How the parts of a value are set apart. -/
structure Layout where
  /-- What stands before an item or a closing bracket at a depth. -/
  separation : Nat → List Char
  /-- What stands between a key and its value. -/
  colon : List Char

/-- Everything on one line, without blanks. -/
def Layout.compact : Layout := ⟨fun _ => [], [':']⟩

/-- Every item on its own line, two blanks deeper than its container. -/
def Layout.indented : Layout := ⟨fun depth => '\n' :: List.replicate (2 * depth) ' ', [':', ' ']⟩

/-- A character as it stands in a quoted text. -/
def escape (c : Char) : List Char :=
  match c with
  | '"' => ['\\', '"']
  | '\\' => ['\\', '\\']
  | '\x08' => ['\\', 'b']
  | '\t' => ['\\', 't']
  | '\n' => ['\\', 'n']
  | '\x0c' => ['\\', 'f']
  | '\r' => ['\\', 'r']
  | c =>
    if c.toNat < 0x20 then
      ['\\', 'u', '0', '0', Numeral.hexDigit (c.toNat / 16), Numeral.hexDigit (c.toNat % 16)]
    else [c]

/-- A text between quotes. -/
def quoted (s : String) : List Char := '"' :: s.toList.flatMap escape ++ ['"']

mutual

/-- A value at a depth. -/
def print (layout : Layout) (depth : Nat) : Json → List Char
  | null => "null".toList
  | bool true => "true".toList
  | bool false => "false".toList
  | int value => (toString value).toList
  | text value => quoted value
  | list [] => ['[', ']']
  | list (item :: rest) =>
    '[' :: layout.separation (depth + 1) ++ print layout (depth + 1) item ++ printItems layout depth rest
  | object [] => ['{', '}']
  | object ((key, value) :: rest) =>
    '{' :: layout.separation (depth + 1) ++ quoted key ++ layout.colon ++ print layout (depth + 1) value ++
      printEntries layout depth rest
  | unread => "null".toList

/-- What follows an item of a list: the other items and the closing bracket. -/
def printItems (layout : Layout) (depth : Nat) : List Json → List Char
  | [] => layout.separation depth ++ [']']
  | item :: rest =>
    ',' :: layout.separation (depth + 1) ++ print layout (depth + 1) item ++ printItems layout depth rest

/-- What follows an entry of an object: the other entries and the closing bracket. -/
def printEntries (layout : Layout) (depth : Nat) : List (String × Json) → List Char
  | [] => layout.separation depth ++ ['}']
  | (key, value) :: rest =>
    ',' :: layout.separation (depth + 1) ++ quoted key ++ layout.colon ++ print layout (depth + 1) value ++
      printEntries layout depth rest

end

/-- The text of a value, on one line or indented. -/
def render (value : Json) (indented : Bool) : String :=
  String.ofList (value.print (if indented then .indented else .compact) 0)

end HeaderCatalog.Json
