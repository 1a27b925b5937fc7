import HeaderCatalog.Yaml.Scalar

set_option autoImplicit false

/-!
# Anchors, tags and directives of YAML

An anchor names the value behind it, so that a reference can repeat it.  A tag says what a value is: it is a handle and
a suffix, and the handle stands for the text that a directive gives it.  The readers here take the text from behind
the mark they are named for and yield what follows.
-/

namespace HeaderCatalog.Yaml

/-- The characters of the names of anchors, handles and directives. -/
def isNameChar (c : Char) : Bool := c.isAlphanum || c == '_' || c == '-'

/-- A name, which may be empty, and what follows it. -/
def spanName (s : List Char) : List Char × List Char := s.span isNameChar

/-- Reads the name of an anchor or reference, which may not be empty and has to end at a gap or a mark. -/
def readAnchor (s : List Char) : Option (String × List Char) :=
  let (name, rest) := spanName s
  if !name.isEmpty && (atGap rest || (rest.head?.any fun c => "?:,]\x7d%@\x60".toList.contains c)) then
    some (String.ofList name, rest)
  else none

/-! ## Tags -/

/-- A tag as it is written.  Without a handle, the suffix is the whole of it. -/
structure Tag where
  handle : String
  suffix : Octets
  deriving DecidableEq, Repr

/-- The tag that is an exclamation mark alone. -/
def Tag.bare : Tag := ⟨"", [33]⟩

/-- The characters of a tag; between angles there are a few more. -/
def isTagChar (verbatim : Bool) (c : Char) : Bool :=
  isNameChar c || ";/?:@&=+$.!~*'()".toList.contains c || (verbatim && (c == ',' || c == '[' || c == ']'))

/-- How many octets of a character are still to come after `octet`, where `due` were still to come before it. -/
def octetsDue? (due octet : Nat) : Option Nat :=
  if 0 < due then (if octet / 0x40 == 0b10 then some (due - 1) else none)
  else if octet < 0x80 then some 0
  else if octet / 0x20 == 0b110 then some 1
  else if octet / 0x10 == 0b1110 then some 2
  else if octet / 0x08 == 0b11110 then some 3
  else none

/-- Reads the octets of a tag up to the first character that is not one of its own.  An octet may be written as a
percent sign and two hexadecimal digits; the octets of a character have to be written together, and `due` of them are
still to come. -/
def readOctets (verbatim : Bool) : (due : Nat) → List Char → Option (Octets × List Char)
  | due, [] => if due = 0 then some ([], []) else none
  | due, '%' :: a :: b :: rest => do
    let octet ← Numeral.ofDigitsIn? 16 [a, b]
    let (octets, rest) ← readOctets verbatim (← octetsDue? due octet) rest
    return (UInt8.ofNat octet :: octets, rest)
  | due, c :: rest =>
    if 0 < due then none
    else if isTagChar verbatim c then
      (readOctets verbatim 0 rest).map fun (octets, rest) => (UInt8.ofNat c.toNat :: octets, rest)
    else if c == '%' then none
    else some ([], c :: rest)

/-- What counts of the octets of a tag: a zero ends it. -/
def beforeZero (octets : Octets) : Octets := octets.takeWhile (· != 0)

/-- Reads the octets of a tag where there has to be one. -/
def readTagged (verbatim : Bool) (s : List Char) : Option (Octets × List Char) :=
  match readOctets verbatim 0 s with
  | some (octet :: octets, rest) => some (beforeZero (octet :: octets), rest)
  | _ => none

/-- Reads the tag behind an exclamation mark, up to the gap that has to follow, or the comma inside braces. -/
def readTag (inFlow : Bool) (s : List Char) : Option (Tag × List Char) := do
  let (tag, rest) ← match s with
    | '<' :: s =>
      match ← readTagged true s with
      | (suffix, '>' :: rest) => some (⟨"", suffix⟩, rest)
      | _ => none
    | _ =>
      let (name, rest) := spanName s
      match rest with
      | '!' :: rest =>
        (readTagged false rest).map fun (suffix, rest) => (⟨String.ofList ('!' :: name ++ ['!']), suffix⟩, rest)
      | _ =>
        (readOctets false 0 s).map fun (octets, rest) =>
          match beforeZero octets with
          | [] => (.bare, rest)
          | suffix => (⟨"!", suffix⟩, rest)
  if atGap rest || (inFlow && rest.head? == some ',') then return (tag, rest) else none

/-! ## Directives -/

/-- What a line in front of a document says about it. -/
inductive Directive where
  /-- The version of the format. -/
  | version (major minor : Nat)
  /-- What a handle stands for. -/
  | handle (name : String) (expansion : Octets)
  deriving DecidableEq, Repr

/-- Reads a number of at most nine digits. -/
def readVersionPart (s : List Char) : Option (Nat × List Char) :=
  let (digits, rest) := s.span Char.isDigit
  if digits.isEmpty || 9 < digits.length then none else (Numeral.ofDigits? digits).map (·, rest)

/-- Reads the directive behind a percent sign, up to the end of its line. -/
def readDirective (s : List Char) : Option (Directive × List Char) := do
  let (name, rest) := spanName s
  let (directive, rest) ←
    if !atGap rest then none
    else
      let rest := rest.dropWhile isBlank
      if name == "YAML".toList then
        match ← readVersionPart rest with
        | (major, '.' :: rest) => (readVersionPart rest).map fun (minor, rest) => (.version major minor, rest)
        | _ => none
      else if name == "TAG".toList then
        match rest with
        | '!' :: rest =>
          let (name, rest) := spanName rest
          let handle? := match rest with
            | '!' :: rest => some (String.ofList ('!' :: name ++ ['!']), rest)
            | _ => if name.isEmpty then some ("!", rest) else none
          match handle? with
          | some (handle, c :: rest) =>
            if !isBlank c then none
            else
              match readTagged true (rest.dropWhile isBlank) with
              | some (expansion, rest) => if atGap rest then some (.handle handle expansion, rest) else none
              | none => none
          | _ => none
        | _ => none
      else none
  return (directive, ← afterLine? rest)

end HeaderCatalog.Yaml
