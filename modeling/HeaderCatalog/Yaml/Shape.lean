import HeaderCatalog.Yaml.Scalar

set_option autoImplicit false

/-!
# Reading values from scalars

What a scalar stands for depends on who asks.  Quoted, it is a text.  Unquoted, it may also be a number, a truth value
or nothing; in a literal block, it may be a number or a truth value if it has the tag of one.
-/

namespace HeaderCatalog.Yaml.Scalar

/-- The words for nothing. -/
def nullWords : List String := ["null", "Null", "NULL", "~"]

/-- Whether a scalar stands for nothing; the tag of nothing on any other text is an error. -/
def isNull? (scalar : Scalar) : Option Bool :=
  if scalar.form != .plain then some false
  else
    match scalar.tag with
    | none => some (scalar.text.isEmpty || nullWords.contains scalar.text)
    | some tag =>
      if tag != typeTag "null" then some false
      else if nullWords.contains scalar.text then some true
      else none

/-- Whether the text of a scalar may be read as a value of a type: a plain one may, whatever its tag is, and a literal
block may with the tag of the type. -/
def isOpenTo (scalar : Scalar) (type : String) : Bool :=
  match scalar.form with
  | .plain => true
  | .literal => scalar.tag == some (typeTag type)
  | .quoted => false

/-- The truth value that a text stands for. -/
def boolOf? (text : String) : Option Bool :=
  if ["true", "True", "TRUE"].contains text then some true
  else if ["false", "False", "FALSE"].contains text then some false
  else none

/-- A truth value. -/
def bool? (scalar : Scalar) : Option Bool := if scalar.isOpenTo "bool" then boolOf? scalar.text else none

/-- Whether digits are no number, for a zero in front of them. -/
def isZeroPadded (digits : List Char) : Bool := digits.head? == some '0' && 1 < digits.length && digits.all Char.isDigit

/-- The number that a text stands for, in decimal or, with a mark in front, in base 16, 8 or 2. -/
def ofNumeral? (text : List Char) : Option Nat :=
  let digits := match text with
    | '+' :: rest => rest
    | _ => text
  let read? (base : Nat) (digits : List Char) := if digits.isEmpty then none else Numeral.ofDigitsIn? base digits
  match digits with
  | '0' :: 'x' :: rest => read? 16 rest
  | '0' :: 'o' :: rest => read? 8 rest
  | '0' :: 'b' :: rest => read? 2 rest
  | _ => if isZeroPadded digits then none else read? 10 digits

/-- An unsigned number of 32 bits. -/
def uint32? (scalar : Scalar) : Option UInt32 :=
  if scalar.isOpenTo "int" then
    (ofNumeral? scalar.text.toList).bind fun n => if n < UInt32.size then some (UInt32.ofNat n) else none
  else none

/-- A text, which may be written in any way. -/
def text? (scalar : Scalar) : Option String := some scalar.text

/-- A field that may be missing or stand for nothing. -/
def optional {α : Type} (read? : Scalar → Option α) : Option Scalar → Option (Option α)
  | none => some none
  | some scalar => do if ← scalar.isNull? then return none else (read? scalar).map some

end HeaderCatalog.Yaml.Scalar
