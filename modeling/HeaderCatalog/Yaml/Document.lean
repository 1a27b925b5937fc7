import HeaderCatalog.Yaml.Token

set_option autoImplicit false

/-!
# Documents of YAML

The tokens of a text make up one document.  It is taken as far as it can hold settings: one scalar, or one mapping of
scalars.  A text without tokens is a document whose scalar is missing, and a scalar may be missing wherever the next
mark stands in its place.

Anchors are numbered, and a reference is to a number.  Only at the end of the document is it settled which value a
number stands for (`Names.scalarOf?`).
-/

namespace HeaderCatalog.Yaml

/-- A document with at most one mapping. -/
inductive Document where
  | scalar (scalar : Scalar)
  | mapping (entries : List (Scalar × Scalar))
  deriving DecidableEq, Repr

/-! ## Names -/

/-- A key or value as it stands in a document. -/
inductive Content where
  | scalar (scalar : Scalar)
  /-- The value with a number. -/
  | reference (number : Nat)
  deriving DecidableEq, Repr

/-- What the names in a document stand for. -/
structure Names where
  /-- The octets of handles. -/
  handles : List (String × Octets)
  /-- The numbers of anchors. -/
  numbers : List (String × Nat) := []
  /-- What the numbers stand for, the latest first; a mapping is no scalar. -/
  values : List (Nat × Option Scalar) := []

namespace Names

/-- Gives an anchor to a value.  Its number is how many different anchors there were before; so an anchor that is given
again takes a number that a later one may take over. -/
def define (names : Names) (anchor : String) (value : Option Scalar) : Names :=
  let number := names.numbers.length
  { names with
    numbers := (anchor, number) :: names.numbers.filter (·.1 ≠ anchor)
    values := (number, value) :: names.values }

/-- Gives an anchor to a value, if there is one. -/
def defineAny (names : Names) (anchor : Option String) (value : Option Scalar) : Names :=
  anchor.elim names (names.define · value)

/-- The scalar that a content stands for. -/
def scalarOf? (names : Names) : Content → Option Scalar
  | .scalar scalar => some scalar
  | .reference number => (names.values.lookup number).join

/-- The whole of a tag, if its handle stands for something. -/
def resolveTag? (names : Names) (tag : Tag) : Option Octets :=
  if tag.handle.isEmpty then some tag.suffix else (names.handles.lookup tag.handle).map (· ++ tag.suffix)

end Names

/-! ## Reading contents -/

/-- The anchor and tag in front of a value. -/
structure Properties where
  anchor : Option String := none
  tag : Option Octets := none

namespace Document

/-- Reads the anchor and tag in front of a value, in either order. -/
def readProperties? (names : Names) : List Token → Option (Properties × List Token)
  | .anchor anchor :: .tag tag :: rest => do return (⟨anchor, ← names.resolveTag? tag⟩, rest)
  | .tag tag :: .anchor anchor :: rest => do return (⟨anchor, ← names.resolveTag? tag⟩, rest)
  | .anchor anchor :: rest => some (⟨anchor, none⟩, rest)
  | .tag tag :: rest => do return (⟨none, ← names.resolveTag? tag⟩, rest)
  | rest => some ({}, rest)

/-- Reads the scalar behind its properties.  A scalar may be missing only behind a property. -/
def readTagged? (names : Names) (properties : Properties) : List Token → Option (Scalar × Names × List Token)
  | .scalar text form :: rest =>
    let scalar := ⟨text, form, properties.tag⟩
    some (scalar, names.defineAny properties.anchor scalar, rest)
  | rest =>
    if properties.anchor.isSome || properties.tag.isSome then
      let scalar := { Scalar.missing with tag := properties.tag }
      some (scalar, names.defineAny properties.anchor scalar, rest)
    else none

/-- Reads a scalar, or a reference. -/
def readContent? (names : Names) : List Token → Option (Content × Names × List Token)
  | .reference anchor :: rest => (names.numbers.lookup anchor).map (.reference ·, names, rest)
  | tokens => do
    let (properties, rest) ← readProperties? names tokens
    (readTagged? names properties rest).map fun (value, names, rest) => (.scalar value, names, rest)

/-- Reads a scalar or reference that is missing where one of the given tokens stands in its place. -/
def readOrMissing? (names : Names) (ends : List Token) (tokens : List Token) :
    Option (Content × Names × List Token) :=
  if tokens.head?.any ends.contains then some (.scalar .missing, names, tokens) else readContent? names tokens

/-- Reads the value of an entry, which is missing without its mark. -/
def readValue? (names : Names) (ends : List Token) : List Token → Option (Content × Names × List Token)
  | .value :: rest => readOrMissing? names ends rest
  | rest => some (.scalar .missing, names, rest)

/-- The rest of the tokens behind a comma, which separates all but the first entry. -/
def afterComma? (first : Bool) : List Token → Option (List Token)
  | .comma :: rest => if first then none else some rest
  | rest => if first then some rest else none

/-! ## Mappings

Each reader takes at most so many entries, up to the token that ends the mapping. -/

/-- The entries of a mapping, with the names behind them. -/
structure Entries where
  contents : List (Content × Content) := []
  names : Names

/-- The entries with one more in front. -/
def Entries.cons (key value : Content) (entries : Entries) : Entries :=
  { entries with contents := (key, value) :: entries.contents }

/-- Reads the entries of a block mapping. -/
def readBlock? : (fuel : Nat) → Names → List Token → Option (Entries × List Token)
  | _, names, .blockEnd :: rest => some ({ names }, rest)
  | fuel + 1, names, .key :: rest => do
    let ends := [.key, .value, .blockEnd]
    let (key, names, rest) ← readOrMissing? names ends rest
    let (value, names, rest) ← readValue? names ends rest
    let (entries, rest) ← readBlock? fuel names rest
    return (entries.cons key value, rest)
  | _, _, _ => none

/-- Reads the entries of a mapping in braces. -/
def readFlow? : (fuel : Nat) → (first : Bool) → Names → List Token → Option (Entries × List Token)
  | _, _, names, .flowEnd :: rest => some ({ names }, rest)
  | 0, _, _, _ => none
  | fuel + 1, first, names, tokens => do
    match ← afterComma? first tokens with
    | .flowEnd :: rest => return ({ names }, rest)
    | .key :: rest =>
      let (key, names, rest) ← readOrMissing? names [.value, .comma, .flowEnd] rest
      let (value, names, rest) ← readValue? names [.comma, .flowEnd] rest
      let (entries, rest) ← readFlow? fuel false names rest
      return (entries.cons key value, rest)
    | tokens =>
      let (key, names, rest) ← readContent? names tokens
      let (entries, rest) ← readFlow? fuel false names rest
      return (entries.cons key (.scalar .missing), rest)

/-- The mapping of entries, if every key and value is a scalar. -/
def ofEntries? (entries : Entries) : Option Document := do
  let scalars ← entries.contents.mapM fun (key, value) => do
    return (← entries.names.scalarOf? key, ← entries.names.scalarOf? value)
  return mapping scalars

/-! ## Whole documents -/

/-- The handles that stand for something without a directive. -/
def commonHandles : List (String × Octets) := [("!", [33]), ("!!", typeTag "")]

/-- Whether a version of the format is understood. -/
def isSupported (major minor : Nat) : Bool := major == 1 && (minor == 1 || minor == 2)

/-- Reads the directives in front of a document: the handles they define, and whether there are any.  The version may
be given once, and so may each handle. -/
def readDirectives? : (versionGiven : Bool) → (handles : List (String × Octets)) → List Token →
    Option (List (String × Octets) × List Token)
  | versionGiven, handles, .directive (.version major minor) :: rest =>
    if versionGiven || !isSupported major minor then none else readDirectives? true handles rest
  | versionGiven, handles, .directive (.handle name expansion) :: rest =>
    if (handles.lookup name).isSome then none else readDirectives? versionGiven ((name, expansion) :: handles) rest
  | _, handles, rest => some (handles, rest)

/-- Reads the scalar or mapping that a document is. -/
def readRoot? (names : Names) (tokens : List Token) : Option (Document × List Token) := do
  let (properties, rest) ← readProperties? names tokens
  let inside := names.defineAny properties.anchor none
  match rest with
  | .blockStart :: rest => do
    let (entries, rest) ← readBlock? rest.length inside rest
    return (← ofEntries? entries, rest)
  | .flowStart :: rest => do
    let (entries, rest) ← readFlow? rest.length true inside rest
    return (← ofEntries? entries, rest)
  | rest => (readTagged? names properties rest).map fun (content, _, rest) => (scalar content, rest)

/-- Whether a token ends a document or starts another, so that no content stands there. -/
def isEdge : Token → Bool
  | .directive _ => true
  | .documentStart => true
  | .documentEnd => true
  | _ => false

/-- The document that tokens make up, if they make up one alone.  With directives its start has to be marked. -/
def ofTokens? (tokens : List Token) : Option Document := do
  let (handles, rest) ← readDirectives? false [] tokens
  let names : Names := { handles := handles ++ commonHandles }
  let (document, rest) ← match rest with
    | .documentStart :: rest => if rest.head?.all isEdge then some (scalar .missing, rest) else readRoot? names rest
    | _ =>
      if tokens.isEmpty then some (scalar .missing, [])
      else if rest.length < tokens.length then none
      else readRoot? names rest
  if rest.all (· == .documentEnd) then return document else none

/-- The document of a text. -/
def ofText? (text : String) : Option Document := (Token.ofText? text).bind ofTokens?

end Document

end HeaderCatalog.Yaml
