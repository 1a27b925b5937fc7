import HeaderCatalog.Yaml.Shape

set_option autoImplicit false

/-!
# Styles of scalars in YAML

A text is written without quotes wherever it reads back as itself.  Single quotes keep it from being taken for a number,
a truth value, nothing or a mark; double quotes are left for characters that have to be escaped; and a text with line
feeds becomes a literal block.
-/

namespace HeaderCatalog.Yaml

/-- How a scalar is written. -/
inductive Style where
  | plain
  | single
  | double
  | literal
  deriving DecidableEq, Repr

/-! ## Texts that look like something else -/

/-- Words for infinities and for no number. -/
def specialNumbers : List String :=
  [".inf", ".Inf", ".INF", "+.inf", "+.Inf", "+.INF", "-.inf", "-.Inf", "-.INF", ".nan", ".NaN", ".NAN"]

/-- A text without the sign in front. -/
def withoutSign : List Char → List Char
  | '+' :: rest => rest
  | '-' :: rest => rest
  | s => s

/-- Whether a text is an integer of at most 128 bits in base 16, 8 or 2. -/
def isMarkedInteger (s : List Char) : Bool :=
  let largest := if s.head? == some '-' then Nat.pow 2 127 else Nat.pow 2 128 - 1
  let isWithin (base : Nat) (digits : List Char) : Bool :=
    !digits.isEmpty && (Numeral.ofDigitsIn? base digits).any (· ≤ largest)
  match withoutSign s with
  | '0' :: 'x' :: digits => isWithin 16 digits
  | '0' :: 'o' :: digits => isWithin 8 digits
  | '0' :: 'b' :: digits => isWithin 2 digits
  | _ => false

/-- The exponent of a decimal number, if what follows its digits is one or nothing. -/
def exponent? : List Char → Option Int
  | [] => some 0
  | c :: rest =>
    if c != 'e' && c != 'E' then none
    else
      let digits := withoutSign rest
      if digits.isEmpty then none
      else (Numeral.ofDigits? digits).map fun n => if rest.head? == some '-' then -n else n

/-- The first number beyond the finite ones of 64 bits, when rounded to the nearest. -/
def floatLimit : Nat := Nat.pow 2 1024 - Nat.pow 2 970

/-- Whether a number of decimal digits, scaled by a power of ten, is finite in 64 bits.  The digits count from the first
that is not zero, so that no power beyond the limit's own digits has to be computed. -/
def isFinite (digits : List Char) (scale : Int) : Bool :=
  let digits := digits.dropWhile (· == '0')
  let magnitude := digits.length + scale
  let value := (Numeral.ofDigits? digits).getD 0
  if digits.isEmpty || magnitude < 309 then true
  else if 309 < magnitude then false
  else if 0 ≤ scale then value * Nat.pow 10 scale.toNat < floatLimit
  else value < floatLimit * Nat.pow 10 (-scale).toNat

/-- Whether a text is a finite decimal number, with or without a point and an exponent. -/
def isDecimal (s : List Char) : Bool :=
  let (whole, rest) := (withoutSign s).span Char.isDigit
  let (fraction, rest) := match rest with
    | '.' :: rest => rest.span Char.isDigit
    | _ => ([], rest)
  if whole.isEmpty && fraction.isEmpty then false
  else (exponent? rest).any fun exponent => isFinite (whole ++ fraction) (exponent - fraction.length)

/-- Whether a text, without quotes, could be taken for something else. -/
def isAmbiguous (s : String) : Bool :=
  s.isEmpty || Scalar.nullWords.contains s || (Scalar.boolOf? s).isSome || specialNumbers.contains s ||
    isMarkedInteger s.toList || Scalar.isZeroPadded (withoutSign s.toList) || isDecimal s.toList

/-! ## What a text holds -/

/-- Whether a character is written as it is. -/
def isPrintable (c : Char) : Bool :=
  let n := c.toNat
  n == 0x0A || (0x20 ≤ n && n ≤ 0x7E) || (0xA0 ≤ n && n ≤ 0xD7FF) || (0xE000 ≤ n && n ≤ 0xFFFD && n != 0xFEFF) ||
    0x10000 ≤ n

/-- Whether a character of one kind stands right before one of another. -/
def hasPair (first second : Char → Bool) (s : List Char) : Bool :=
  (s.zip s.tail).any fun (c, d) => first c && second d

/-- A blank or break. -/
def isSpacing (c : Char) : Bool := c == ' ' || isBreak c

/-- The marks that a text without quotes may not start with. -/
def startMarks : List Char := "#,[]\x7b\x7d&*!|>'\"%@\x60".toList

/-- Whether a text holds marks that mean something outside of quotes. -/
def hasMarks (s : List Char) : Bool :=
  "---".toList.isPrefixOf s || "...".toList.isPrefixOf s || s.head?.any startMarks.contains
    || (s.head?.any (fun c => c == '?' || c == '-') && atGap s.tail)
    || hasPair (· == ':') isSpacing s || s.getLast? == some ':' || hasPair isSpacing (· == '#') s

/-- Whether a text can do without quotes. -/
def allowsPlain (s : List Char) : Bool :=
  s.all isPrintable && !s.isEmpty && !s.any isBreak && !s.head?.any (· == ' ') && !s.getLast?.any (· == ' ')
    && !hasMarks s

/-- Whether a text can stand between single quotes. -/
def allowsSingle (s : List Char) : Bool :=
  s.all isPrintable && !hasPair isBreak (· == ' ') s && !hasPair (· == ' ') isBreak s

/-- Whether a text can be a literal block. -/
def allowsLiteral (s : List Char) : Bool :=
  s.all isPrintable && !hasPair (· == ' ') isBreak s && !s.getLast?.any (· == ' ')

/-- The style of a text. -/
def Style.ofText (s : String) : Style :=
  let chars := s.toList
  if chars.contains '\n' then (if allowsLiteral chars then .literal else .double)
  else if !isAmbiguous s && allowsPlain chars then .plain
  else if allowsSingle chars then .single
  else .double

end HeaderCatalog.Yaml
