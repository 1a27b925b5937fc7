import HeaderCatalog.Yaml.Style

set_option autoImplicit false

/-!
# Printing YAML

The entries of a mapping, one after the other, each with the style that its text calls for.
-/

namespace HeaderCatalog.Yaml

/-- The columns by which a value is set in when it goes over several lines. -/
def indentation : Nat := 2

/-- An upper-case hexadecimal digit. -/
def upperHexDigit (n : Nat) : Char := Char.ofNat (if n < 10 then 48 + n else 55 + n)

/-- A number in so many hexadecimal digits. -/
def hexDigits : (width : Nat) → Nat → List Char
  | 0, _ => []
  | width + 1, n => hexDigits width (n / 16) ++ [upperHexDigit (n % 16)]

/-- The letter behind the backslash for characters that have one of their own. -/
def escapeLetter? : Char → Option Char
  | '\x00' => some '0'
  | '\x07' => some 'a'
  | '\x08' => some 'b'
  | '\t' => some 't'
  | '\n' => some 'n'
  | '\x0b' => some 'v'
  | '\x0c' => some 'f'
  | '\r' => some 'r'
  | '\x1b' => some 'e'
  | '"' => some '"'
  | '\\' => some '\\'
  | '\u0085' => some 'N'
  | '\u2028' => some 'L'
  | '\u2029' => some 'P'
  | _ => none

/-- A character as it stands between double quotes. -/
def escape (c : Char) : List Char :=
  match escapeLetter? c with
  | some letter => ['\\', letter]
  | none =>
    if isPrintable c then [c]
    else if c.toNat ≤ 0xFF then '\\' :: 'x' :: hexDigits 2 c.toNat
    else if c.toNat ≤ 0xFFFF then '\\' :: 'u' :: hexDigits 4 c.toNat
    else '\\' :: 'U' :: hexDigits 8 c.toNat

/-- A character as it stands between single quotes. -/
def doubled (c : Char) : List Char := if c == '\'' then [c, c] else [c]

/-- A text with every line but the empty ones set in; `start` tells whether a line starts here, and the first line is
then set in as well. -/
def indentLines : (start : Bool) → List Char → List Char
  | _, [] => []
  | start, c :: rest =>
    if isBreak c then c :: indentLines true rest
    else (if start then List.replicate indentation ' ' else []) ++ c :: indentLines false rest

/-- The marks behind the bar of a literal block: its indentation if its first line does not show it, and what happens to
the breaks at its end. -/
def literalMarks (s : List Char) : List Char :=
  let ending := (s.reverse.takeWhile isBreak).length
  (if s.head?.any isSpacing then (toString indentation).toList else []) ++
    (if ending = 0 then ['-'] else if ending = s.length || 1 < ending then ['+'] else [])

/-- A text in a style, up to the end of its last line. -/
def Style.write (s : List Char) : Style → List Char
  | .plain => s ++ ['\n']
  | .single =>
    let closing := if s.getLast?.any isBreak then List.replicate indentation ' ' else []
    '\'' :: indentLines false (s.flatMap doubled) ++ closing ++ ['\'', '\n']
  | .double => '"' :: s.flatMap escape ++ ['"', '\n']
  | .literal =>
    '|' :: literalMarks s ++ '\n' :: indentLines true s ++ (if s.getLast?.any isBreak then [] else ['\n'])

/-- An entry whose value is a text. -/
def textEntry (key value : String) : String :=
  key ++ ": " ++ String.ofList ((Style.ofText value).write value.toList)

/-- An entry whose value is a word that stands for itself. -/
def wordEntry (key word : String) : String := key ++ ": " ++ word ++ "\n"

end HeaderCatalog.Yaml
