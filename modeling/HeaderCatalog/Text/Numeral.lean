set_option autoImplicit false

/-!
# Numerals

Reading and writing whole numbers, digit by digit, in the bases the formats use.
-/

namespace HeaderCatalog.Numeral

/-- The value of a digit in a base of at most sixteen, in either case. -/
def digitValue? (base : Nat) (c : Char) : Option Nat :=
  let value :=
    if c.isDigit then some (c.toNat - 48)
    else if 'a' ≤ c && c ≤ 'f' then some (c.toNat - 87)
    else if 'A' ≤ c && c ≤ 'F' then some (c.toNat - 55)
    else none
  value.filter (· < base)

/-- The value of a run of digits in a base, the most significant first; `none` for anything else in the run. -/
def ofDigitsIn? (base : Nat) (digits : List Char) : Option Nat :=
  digits.foldlM (fun value c => (digitValue? base c).map (value * base + ·)) 0

/-- The value of a run of decimal digits. -/
def ofDigits? (digits : List Char) : Option Nat := ofDigitsIn? 10 digits

/-- A lower-case hexadecimal digit. -/
def hexDigit (n : Nat) : Char := Char.ofNat (if n < 10 then 48 + n else 87 + n)

/-- A number in decimal, with zeros in front up to a width. -/
def padded (width n : Nat) : List Char :=
  let digits := (toString n).toList
  List.replicate (width - digits.length) '0' ++ digits

end HeaderCatalog.Numeral
