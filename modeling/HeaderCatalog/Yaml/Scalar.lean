import HeaderCatalog.Text.Numeral

set_option autoImplicit false

/-!
# Scalars of YAML

How the text of a scalar is read in its five styles: plain, between single or double quotes, literal and folded.  All
but the literal style fold lines: the break between two lines is a space, and of several breaks all but the first stand.
Line breaks are taken to be normalized, so that a line feed is the usual one (`normalize`).

The readers take the text from where the scalar starts and yield what follows it; every one recurses on that text.
-/

namespace HeaderCatalog.Yaml

/-- How much the way a scalar is written leaves open. -/
inductive Form where
  /-- Written without quotes or block marks: its text decides what it is. -/
  | plain
  /-- A literal block: its text decides if a tag says what it is to be. -/
  | literal
  /-- Quoted, or a folded block: a text. -/
  | quoted
  deriving DecidableEq, Repr, Inhabited

/-- The octets of a tag, which need not be text. -/
abbrev Octets := List UInt8

/-- The tag that the format has for a type. -/
def typeTag (name : String) : Octets := ("tag:yaml.org,2002:" ++ name).toUTF8.toList

/-- A scalar as it is written. -/
structure Scalar where
  text : String
  form : Form
  /-- The tag in front of it. -/
  tag : Option Octets := none
  deriving DecidableEq, Repr, Inhabited

/-- The scalar that is not there. -/
def Scalar.missing : Scalar := ⟨"", .plain, none⟩

/-! ## Characters -/

/-- A space or tab. -/
def isBlank (c : Char) : Bool := c == ' ' || c == '\t'

/-- A line break, after normalization. -/
def isBreak (c : Char) : Bool := c == '\n' || c == '\u2028' || c == '\u2029'

/-- Whether a text is at a blank, a break or its end. -/
def atGap : List Char → Bool
  | [] => true
  | c :: _ => isBlank c || isBreak c

/-- Whether a text starts with the mark of a document, three dashes or dots with a gap behind. -/
def atDocumentMark : List Char → Bool
  | '-' :: '-' :: '-' :: rest => atGap rest
  | '.' :: '.' :: '.' :: rest => atGap rest
  | _ => false

/-- The characters that a file may hold. -/
def isAllowed (c : Char) : Bool :=
  let n := c.toNat
  n == 0x09 || n == 0x0A || n == 0x0D || (0x20 ≤ n && n ≤ 0x7E) || n == 0x85 || (0xA0 ≤ n && n ≤ 0xD7FF)
    || (0xE000 ≤ n && n ≤ 0xFFFD) || 0x10000 ≤ n

/-- The text with a line feed for every carriage return, pair of return and feed, and next-line character. -/
def normalize : List Char → List Char
  | [] => []
  | '\r' :: '\n' :: rest => '\n' :: normalize rest
  | c :: rest => (if c == '\r' || c == '\u0085' then '\n' else c) :: normalize rest

/-! ## Folding -/

/-- White space met inside a scalar, before it is known what follows. -/
structure Gap where
  /-- The blanks before any break, the last first. -/
  blanks : List Char := []
  /-- The breaks, the last first. -/
  breaks : List Char := []
  /-- Whether the line was ended by a break that does not count. -/
  escaped : Bool := false

namespace Gap

/-- No white space. -/
def none : Gap := {}

/-- Whether there is any. -/
def isSome (gap : Gap) : Bool := !gap.blanks.isEmpty || !gap.breaks.isEmpty || gap.escaped

/-- Whether the gap goes over the end of a line. -/
def isBroken (gap : Gap) : Bool := !gap.breaks.isEmpty || gap.escaped

/-- The gap with a further blank or break.  Blanks at the end and at the start of a line are dropped. -/
def push (gap : Gap) (c : Char) : Gap :=
  if isBreak c then { gap with blanks := [], breaks := c :: gap.breaks }
  else if gap.isBroken then gap
  else { gap with blanks := c :: gap.blanks }

/-- What a gap contributes to a text. -/
def text (gap : Gap) : List Char :=
  if gap.escaped then gap.breaks.reverse
  else match gap.breaks.reverse with
    | [] => gap.blanks.reverse
    | ['\n'] => [' ']
    | '\n' :: others => others
    | breaks => breaks

end Gap

/-! ## Plain scalars -/

/-- Whether a plain scalar inside braces ends here. -/
def endsFlowPlain (c : Char) : Bool := c == ',' || c == '[' || c == ']' || c == '{' || c == '}'

/-- Reads a plain scalar: its text, whether the gap behind it goes over the end of a line, and what follows the gap.
`indent` is the least column of a further line, `column` the column here, and `flow` tells whether the scalar stands
inside braces, where more marks end it and a colon before such a mark is an error. -/
def readPlain (flow : Bool) (indent : Nat) : (column : Nat) → Gap → List Char → Option (List Char × Bool × List Char)
  | _, gap, [] => some ([], gap.isBroken, [])
  | column, gap, c :: rest =>
    if isBreak c then readPlain flow indent 0 (gap.push c) rest
    else if isBlank c then
      if gap.isBroken && c == '\t' && column < indent then none
      else readPlain flow indent (column + 1) (gap.push c) rest
    else if gap.isSome && (c == '#' || (!flow && gap.isBroken && column < indent)) then
      some ([], gap.isBroken, c :: rest)
    else if column == 0 && atDocumentMark (c :: rest) then some ([], gap.isBroken, c :: rest)
    else if flow && c == ':' && (rest.head?.any fun d => endsFlowPlain d || d == '?') then none
    else if (c == ':' && atGap rest) || (flow && endsFlowPlain c) then some ([], gap.isBroken, c :: rest)
    else (readPlain flow indent (column + 1) .none rest).map fun (text, ending) => (gap.text ++ c :: text, ending)

/-! ## Quoted scalars -/

/-- Reads what follows a single quote, up to the closing one. -/
def readSingle : (column : Nat) → Gap → List Char → Option (List Char × List Char)
  | _, _, [] => none
  | column, gap, '\'' :: '\'' :: rest =>
    (readSingle (column + 2) .none rest).map fun (text, rest) => (gap.text ++ '\'' :: text, rest)
  | column, gap, c :: rest =>
    if column == 0 && atDocumentMark (c :: rest) then none
    else if c == '\'' then some (gap.text, rest)
    else if isBreak c then readSingle 0 (gap.push c) rest
    else if isBlank c then readSingle (column + 1) (gap.push c) rest
    else (readSingle (column + 1) .none rest).map fun (text, rest) => (gap.text ++ c :: text, rest)

/-- The character that a backslash and a letter stand for. -/
def unescape? : Char → Option Char
  | '0' => some '\x00'
  | 'a' => some '\x07'
  | 'b' => some '\x08'
  | 't' => some '\t'
  | '\t' => some '\t'
  | 'n' => some '\n'
  | 'v' => some '\x0b'
  | 'f' => some '\x0c'
  | 'r' => some '\r'
  | 'e' => some '\x1b'
  | ' ' => some ' '
  | '"' => some '"'
  | '/' => some '/'
  | '\\' => some '\\'
  | 'N' => some '\u0085'
  | '_' => some '\u00a0'
  | 'L' => some '\u2028'
  | 'P' => some '\u2029'
  | _ => none

/-- The character with a code, if it is one. -/
def ofCode? (n : Nat) : Option Char :=
  if (0xD800 ≤ n && n ≤ 0xDFFF) || 0x10FFFF < n then none else some (Char.ofNat n)

/-- The character whose code is written in hexadecimal digits. -/
def ofHexDigits? (digits : List Char) : Option Char := (Numeral.ofDigitsIn? 16 digits).bind ofCode?

/-- Reads what follows a double quote, up to the closing one. -/
def readDouble : (column : Nat) → Gap → List Char → Option (List Char × List Char)
  | _, _, [] => none
  | column, gap, '\\' :: 'x' :: a :: b :: rest =>
    match ofHexDigits? [a, b], readDouble (column + 4) .none rest with
    | some c, some (text, rest) => some (gap.text ++ c :: text, rest)
    | _, _ => none
  | column, gap, '\\' :: 'u' :: a :: b :: c :: d :: rest =>
    match ofHexDigits? [a, b, c, d], readDouble (column + 6) .none rest with
    | some c, some (text, rest) => some (gap.text ++ c :: text, rest)
    | _, _ => none
  | column, gap, '\\' :: 'U' :: a :: b :: c :: d :: e :: f :: g :: h :: rest =>
    match ofHexDigits? [a, b, c, d, e, f, g, h], readDouble (column + 10) .none rest with
    | some c, some (text, rest) => some (gap.text ++ c :: text, rest)
    | _, _ => none
  | column, gap, '\\' :: c :: rest =>
    if isBreak c then
      (readDouble 0 { escaped := true } rest).map fun (text, rest) => (gap.text ++ text, rest)
    else
      match unescape? c, readDouble (column + 2) .none rest with
      | some c, some (text, rest) => some (gap.text ++ c :: text, rest)
      | _, _ => none
  | column, gap, c :: rest =>
    if column == 0 && atDocumentMark (c :: rest) then none
    else if c == '"' then some (gap.text, rest)
    else if isBreak c then readDouble 0 (gap.push c) rest
    else if isBlank c then readDouble (column + 1) (gap.push c) rest
    else (readDouble (column + 1) .none rest).map fun (text, rest) => (gap.text ++ c :: text, rest)

/-! ## Block scalars -/

/-- What happens to the breaks at the end of a block scalar. -/
inductive Chomping where
  | strip
  | clip
  | keep
  deriving DecidableEq

/-- The marks behind the bar or angle of a block scalar: chomping and indentation, in either order. -/
def readBlockMarks : List Char → Option (Chomping × Option Nat × List Char)
  | c :: d :: rest =>
    let chomping? (c : Char) : Option Chomping :=
      if c == '+' then some .keep else if c == '-' then some .strip else none
    let digit? (c : Char) : Option Nat := if c.isDigit then some (c.toNat - 48) else none
    match chomping? c, digit? c with
    | some chomping, _ =>
      match digit? d with
      | some 0 => none
      | some n => some (chomping, some n, rest)
      | none => some (chomping, none, d :: rest)
    | none, some 0 => none
    | none, some n =>
      match chomping? d with
      | some chomping => some (chomping, some n, rest)
      | none => some (.clip, some n, d :: rest)
    | none, none => some (.clip, none, c :: d :: rest)
  | ['+'] => some (.keep, none, [])
  | ['-'] => some (.strip, none, [])
  | [c] =>
    if c == '0' then none
    else if c.isDigit then some (.clip, some (c.toNat - 48), [])
    else some (.clip, none, [c])
  | [] => some (.clip, none, [])

/-- What follows a line of which only blanks and a comment may be left. -/
def afterLine? (s : List Char) : Option (List Char) :=
  let rest := s.dropWhile isBlank
  let rest := if rest.head? == some '#' then rest.dropWhile (!isBreak ·) else rest
  match rest with
  | [] => some []
  | c :: rest => if isBreak c then some rest else none

/-- The column of the first line that is not empty, or that of a deeper empty line before it; `none` where a tab stands
among the spaces in front. -/
def firstColumn : (column greatest : Nat) → List Char → Option Nat
  | column, greatest, [] => some (max column greatest)
  | column, greatest, c :: rest =>
    if c == ' ' then firstColumn (column + 1) greatest rest
    else if c == '\t' then none
    else if isBreak c then firstColumn 0 (max column greatest) rest
    else some (max column greatest)

/-- Reads the lines of a block scalar: its text, the break behind its last line, the breaks of the empty lines after
that, and what follows.  `column` is the column here and `content` tells whether the text of the line has begun;
`firstBreak` and `laterBreaks` are the breaks still to be placed, and `spaced` tells whether the line before them starts
with a blank, since a break beside such a line is not folded. -/
def readBlock (literal : Bool) (indent : Nat) :
    (column : Nat) → (content : Bool) → (firstBreak laterBreaks : List Char) → (spaced : Bool) → List Char →
      Option (List Char × List Char × List Char × List Char)
  | column, content, firstBreak, laterBreaks, spaced, s =>
    match s with
    | [] => some ([], firstBreak, laterBreaks, [])
    | c :: rest =>
      if content then
        if isBreak c then readBlock literal indent 0 false [c] [] spaced rest
        else
          (readBlock literal indent (column + 1) true [] [] spaced rest).map fun (text, ending) => (c :: text, ending)
      else if column < indent then
        if c == ' ' then readBlock literal indent (column + 1) false firstBreak laterBreaks spaced rest
        else if isBreak c then readBlock literal indent 0 false firstBreak (laterBreaks ++ [c]) spaced rest
        else if c == '\t' then none
        else some ([], firstBreak, laterBreaks, c :: rest)
      else if isBreak c then readBlock literal indent 0 false firstBreak (laterBreaks ++ [c]) spaced rest
      else
        let folded := !literal && firstBreak == ['\n'] && !spaced && !isBlank c
        let joint := (if folded then (if laterBreaks.isEmpty then [' '] else []) else firstBreak) ++ laterBreaks
        (readBlock literal indent (column + 1) true [] [] (isBlank c) rest).map fun (text, ending) =>
          (joint ++ c :: text, ending)

/-- Reads what follows the mark of a block scalar in a mapping at column `parent`, if there is one. -/
def readBlockScalar (literal : Bool) (parent : Option Nat) (s : List Char) : Option (List Char × List Char) := do
  let (chomping, increment, rest) ← readBlockMarks s
  let rest ← afterLine? rest
  let least := match parent with
    | some column => column + 1
    | none => 1
  let indent ← match increment, parent with
    | some n, some column => some (column + n)
    | some n, none => some n
    | none, _ => (firstColumn 0 0 rest).map (max least)
  let (text, firstBreak, laterBreaks, rest) ← readBlock literal indent 0 false [] [] false rest
  let ending := match chomping with
    | .strip => []
    | .clip => firstBreak
    | .keep => firstBreak ++ laterBreaks
  return (text ++ ending, rest)

end HeaderCatalog.Yaml
