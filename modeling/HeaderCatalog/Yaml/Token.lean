import HeaderCatalog.Yaml.Property

set_option autoImplicit false

/-!
# Tokens of YAML

A text is read token by token.  Two things are not where they are written.  A block mapping starts where its first key
is met, and ends where a line starts before the column of that key.  And what looks like a scalar turns out to be a key
only when a colon follows on its line, so the token of the key is put in front of it then.

Sequences, and mappings inside of mappings, hold no settings: they are refused where they start.
-/

namespace HeaderCatalog.Yaml

/-- A token. -/
inductive Token where
  | directive (directive : Directive)
  | documentStart
  | documentEnd
  | blockStart
  | blockEnd
  | flowStart
  | flowEnd
  /-- The comma between the entries in braces. -/
  | comma
  | key
  | value
  | anchor (name : String)
  | reference (name : String)
  | tag (tag : Tag)
  | scalar (text : String) (form : Form)
  deriving DecidableEq, Repr

/-- A token that is a key if a colon follows. -/
structure Candidate where
  /-- How many tokens stand before it. -/
  position : Nat
  index : Nat
  line : Nat
  column : Nat
  /-- Whether only a key can stand there. -/
  required : Bool
  deriving Repr

/-- A text that is read so far. -/
structure Scanner where
  rest : List Char
  /-- How many characters stand before `rest`. -/
  index : Nat := 0
  line : Nat := 0
  column : Nat := 0
  /-- The tokens so far, the last first. -/
  tokens : List Token := []
  /-- The column of the block mapping that is open. -/
  indent : Option Nat := none
  /-- Whether a mapping in braces is open. -/
  inFlow : Bool := false
  /-- Whether a key may start here. -/
  keyAllowed : Bool := true
  candidate : Option Candidate := none
  deriving Repr

namespace Scanner

/-- The scanner one character further. -/
def step (scanner : Scanner) (c : Char) : Scanner :=
  if isBreak c then { scanner with index := scanner.index + 1, line := scanner.line + 1, column := 0 }
  else { scanner with index := scanner.index + 1, column := scanner.column + 1 }

/-- The scanner at a later place of its text. -/
def moveTo (scanner : Scanner) (rest : List Char) : Scanner :=
  { (scanner.rest.take (scanner.rest.length - rest.length)).foldl step scanner with rest }

/-- The scanner with a further token. -/
def push (scanner : Scanner) (token : Token) : Scanner := { scanner with tokens := token :: scanner.tokens }

/-- The scanner with a token put behind the first ones. -/
def insert (scanner : Scanner) (position : Nat) (token : Token) : Scanner :=
  { scanner with tokens := scanner.tokens.insertIdx (scanner.tokens.length - position) token }

/-- Whether keys may start from here on. -/
def allowKey (scanner : Scanner) (keyAllowed : Bool) : Scanner := { scanner with keyAllowed }

/-! ## Candidates -/

/-- Gives the candidate up, which fails if it has to be a key. -/
def drop? (scanner : Scanner) : Option Scanner :=
  if scanner.candidate.any (·.required) then none else some { scanner with candidate := none }

/-- Takes what starts here for a candidate, if a key may start here. -/
def mark? (scanner : Scanner) : Option Scanner :=
  if !scanner.keyAllowed then some scanner
  else
    scanner.drop?.map fun scanner =>
      let required := !scanner.inFlow && scanner.indent == some scanner.column
      { scanner with
        candidate := some ⟨scanner.tokens.length, scanner.index, scanner.line, scanner.column, required⟩ }

/-- The greatest distance of a colon from the start of its key. -/
def maxKeyLength : Nat := 1024

/-- Gives the candidate up on a later line or too far behind it. -/
def dropStale? (scanner : Scanner) : Option Scanner :=
  match scanner.candidate with
  | some candidate =>
    if candidate.line < scanner.line || candidate.index + maxKeyLength < scanner.index then scanner.drop?
    else some scanner
  | none => some scanner

/-! ## Block mappings -/

/-- Ends the block mapping if it lies deeper than a column; `none` stands for the edge of the document. -/
def endBlock (scanner : Scanner) (column : Option Nat) : Scanner :=
  match scanner.indent with
  | some indent =>
    if !scanner.inFlow && column.all (· < indent) then { scanner.push .blockEnd with indent := none } else scanner
  | none => scanner

/-- Starts a block mapping at a column, at a place among the tokens, unless it is the one that is open there.  None can
start inside another. -/
def startBlock? (scanner : Scanner) (column position : Nat) : Option Scanner :=
  if scanner.inFlow then some scanner
  else
    match scanner.indent with
    | none => some { scanner.insert position .blockStart with indent := some column }
    | some indent => if indent < column then none else some scanner

/-! ## Reading a token -/

/-- The mark of the byte order, which counts as a blank where a line starts. -/
def byteOrderMark : Char := '\ufeff'

/-- What follows blanks, comments and breaks, and whether a key may start there.  A tab is no blank where a key may
start, except in braces. -/
def skipGap (inFlow : Bool) : (lineStart keyAllowed comment : Bool) → List Char → Bool × List Char
  | _, keyAllowed, _, [] => (keyAllowed, [])
  | lineStart, keyAllowed, comment, c :: rest =>
    if isBreak c then skipGap inFlow true (keyAllowed || !inFlow) false rest
    else if comment || c == ' ' || (c == '\t' && (inFlow || !keyAllowed)) || (lineStart && c == byteOrderMark) then
      skipGap inFlow false keyAllowed comment rest
    else if c == '#' then skipGap inFlow false keyAllowed true rest
    else (keyAllowed, c :: rest)

/-- Moves to the next token. -/
def toNext (scanner : Scanner) : Scanner :=
  let (keyAllowed, rest) := skipGap scanner.inFlow (scanner.column == 0) scanner.keyAllowed false scanner.rest
  (scanner.moveTo rest).allowKey keyAllowed

/-- Reads a token that stands at the edge of a document. -/
def edge? (scanner : Scanner) (token : Token) (rest : List Char) : Option Scanner :=
  (scanner.endBlock none).drop?.map fun scanner => ((scanner.push token).moveTo rest).allowKey false

/-- Reads a brace that opens, which it cannot inside a mapping. -/
def openFlow? (scanner : Scanner) (rest : List Char) : Option Scanner :=
  if scanner.inFlow || scanner.indent.isSome then none
  else
    scanner.drop?.map fun scanner => { ((scanner.push .flowStart).moveTo rest).allowKey true with inFlow := true }

/-- Reads a brace that closes. -/
def closeFlow? (scanner : Scanner) (rest : List Char) : Option Scanner :=
  if !scanner.inFlow then none
  else
    scanner.drop?.map fun scanner => { ((scanner.push .flowEnd).moveTo rest).allowKey false with inFlow := false }

/-- Reads a comma. -/
def comma? (scanner : Scanner) (rest : List Char) : Option Scanner :=
  if !scanner.inFlow then none
  else scanner.drop?.map fun scanner => ((scanner.push .comma).moveTo rest).allowKey true

/-- Reads the question mark of a key. -/
def key? (scanner : Scanner) (rest : List Char) : Option Scanner :=
  if !scanner.inFlow && !scanner.keyAllowed then none
  else do
    let scanner ← (← scanner.startBlock? scanner.column scanner.tokens.length).drop?
    return ((scanner.push .key).moveTo rest).allowKey !scanner.inFlow

/-- Reads the colon of a value.  If there is a candidate, it is the key. -/
def value? (scanner : Scanner) (rest : List Char) : Option Scanner :=
  match scanner.candidate with
  | some candidate =>
    let scanner := { scanner.insert candidate.position .key with candidate := none }
    (scanner.startBlock? candidate.column candidate.position).map fun scanner =>
      ((scanner.push .value).moveTo rest).allowKey false
  | none =>
    if !scanner.inFlow && !scanner.keyAllowed then none
    else
      (scanner.startBlock? scanner.column scanner.tokens.length).map fun scanner =>
        ((scanner.push .value).moveTo rest).allowKey !scanner.inFlow

/-- Reads a token that may start a key. -/
def content? (scanner : Scanner) (token : Token) (rest : List Char) : Option Scanner :=
  scanner.mark?.map fun scanner => ((scanner.push token).moveTo rest).allowKey false

/-- The marks that no plain scalar starts with. -/
def isIndicator (c : Char) : Bool := "-?:,[]\x7b\x7d#&*!|>'\"%@\x60".toList.contains c

/-- Whether a plain scalar starts here.  Dash, question mark and colon start one if something follows them. -/
def startsPlain (inFlow : Bool) (c : Char) (rest : List Char) : Bool :=
  !(isBlank c || isBreak c || isIndicator c) || (c == '-' && !rest.head?.any isBlank)
    || (!inFlow && (c == '?' || c == ':') && !atGap rest)

/-- Reads a plain scalar, behind which a key may start if it ends on a later line. -/
def plain? (scanner : Scanner) : Option Scanner := do
  let scanner ← scanner.mark?
  let least := match scanner.indent with
    | some indent => indent + 1
    | none => 0
  let (text, broken, rest) ← readPlain scanner.inFlow least scanner.column .none scanner.rest
  return ((scanner.push (.scalar (String.ofList text) .plain)).moveTo rest).allowKey broken

/-- Reads the token that starts with a character.  Brackets and the dash of an item start no mapping. -/
def token? (scanner : Scanner) (c : Char) (rest : List Char) : Option Scanner :=
  let ofFlow := scanner.inFlow
  if scanner.column == 0 && c == '%' then
    (readDirective rest).bind fun (directive, rest) => scanner.edge? (.directive directive) rest
  else if scanner.column == 0 && atDocumentMark (c :: rest) then
    scanner.edge? (if c == '-' then .documentStart else .documentEnd) (rest.drop 2)
  else if c == '[' || c == ']' || (c == '-' && atGap rest) then none
  else if c == '\x7b' then scanner.openFlow? rest
  else if c == '\x7d' then scanner.closeFlow? rest
  else if c == ',' then scanner.comma? rest
  else if c == '?' && (ofFlow || atGap rest) then scanner.key? rest
  else if c == ':' && (ofFlow || atGap rest) then scanner.value? rest
  else if c == '*' then (readAnchor rest).bind fun (name, rest) => scanner.content? (.reference name) rest
  else if c == '&' then (readAnchor rest).bind fun (name, rest) => scanner.content? (.anchor name) rest
  else if c == '!' then (readTag ofFlow rest).bind fun (tag, rest) => scanner.content? (.tag tag) rest
  else if !ofFlow && (c == '|' || c == '>') then do
    let scanner ← scanner.drop?
    let (text, rest) ← readBlockScalar (c == '|') scanner.indent rest
    let form := if c == '|' then .literal else .quoted
    return ((scanner.push (.scalar (String.ofList text) form)).moveTo rest).allowKey true
  else if c == '\'' then
    (readSingle (scanner.column + 1) .none rest).bind fun (text, rest) =>
      scanner.content? (.scalar (String.ofList text) .quoted) rest
  else if c == '"' then
    (readDouble (scanner.column + 1) .none rest).bind fun (text, rest) =>
      scanner.content? (.scalar (String.ofList text) .quoted) rest
  else if startsPlain ofFlow c rest then scanner.plain?
  else none

/-- Reads at most so many tokens, up to the end of the text. -/
def run : (fuel : Nat) → Scanner → Option (List Token)
  | 0, _ => none
  | fuel + 1, scanner => do
    let scanner ← scanner.toNext.dropStale?
    let scanner := scanner.endBlock (some scanner.column)
    match scanner.rest with
    | [] => return (← (scanner.endBlock none).drop?).tokens.reverse
    | c :: rest => run fuel (← scanner.token? c rest)

end Scanner

/-- The tokens of a text. -/
def Token.ofText? (text : String) : Option (List Token) :=
  if text.toList.all isAllowed then
    let normal := normalize text.toList
    ({ rest := normal } : Scanner).run (normal.length + 1)
  else none

end HeaderCatalog.Yaml
