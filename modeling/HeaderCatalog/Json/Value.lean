set_option autoImplicit false

/-!
# JSON values

The values a syntax tree is read from and a catalogue is written to.  Numbers are integers: the formats here use no
others.  A value may be legal and yet have no reading (a number with a fraction or an exponent, text with an unpaired
surrogate); it is kept as `unread`, which can be skipped but not used.
-/

namespace HeaderCatalog

/-- A JSON value; the entries of an object keep their order and may repeat a key. -/
inductive Json where
  | null
  | bool (value : Bool)
  | int (value : Int)
  | text (value : String)
  | list (items : List Json)
  | object (entries : List (String × Json))
  /-- Legal, but of no use: neither an integer nor text of whole characters. -/
  | unread
  deriving Inhabited, Repr

namespace Json

mutual

/-- How deep lists and objects are nested in a value. -/
def depth : Json → Nat
  | list items => depthItems items + 1
  | object entries => depthEntries entries + 1
  | _ => 0

/-- The depth of the deepest item. -/
def depthItems : List Json → Nat
  | [] => 0
  | item :: rest => max (depth item) (depthItems rest)

/-- The depth of the deepest entry. -/
def depthEntries : List (String × Json) → Nat
  | [] => 0
  | (_, value) :: rest => max (depth value) (depthEntries rest)

end

/-- The first value under a key of an object. -/
def get? (key : String) : Json → Option Json
  | object entries => entries.lookup key
  | _ => none

/-- An optional value, absent as `null`. -/
def ofOption {α : Type} (f : α → Json) : Option α → Json
  | none => null
  | some a => f a

/-- A list of texts. -/
def texts (values : List String) : Json := list (values.map text)

end Json

end HeaderCatalog
