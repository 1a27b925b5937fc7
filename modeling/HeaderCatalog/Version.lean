import HeaderCatalog.Text.Blank
import HeaderCatalog.Text.Numeral

set_option autoImplicit false

/-!
# Dotted versions

A version such as `12.4.1` is a non-empty list of 32-bit numbers.  Reading trims blanks around the whole text and takes
a plus sign before a number, but no other decoration.  Two versions are compared number by number, the shorter one
continued with zeros, so that `9` and `9.0.0` are equal.
-/

namespace HeaderCatalog

namespace Version

/-- The largest number a version may hold. -/
def maxPart : Nat := UInt32.size - 1

/-- One number of a version: decimal digits, at most `maxPart`, with or without a plus sign. -/
def part? (s : List Char) : Option Nat :=
  let digits := match s with
    | '+' :: rest => rest
    | s => s
  if digits.isEmpty then none
  else (Numeral.ofDigits? digits).filter (· ≤ maxPart)

/-- The numbers of a dotted version, or `none` if the text is not one. -/
def parse? (s : List Char) : Option (List Nat) :=
  let trimmed := Text.trim s
  if trimmed.isEmpty then none
  else (trimmed.splitOn '.').mapM part?

/-- Zeros without end against a list. -/
def compareZeros : List Nat → Ordering
  | [] => .eq
  | b :: bs => (compare 0 b).then (compareZeros bs)

/-- Number by number from the left; a list that ends is continued with zeros. -/
def compareParts : List Nat → List Nat → Ordering
  | [], bs => compareZeros bs
  | a :: as, [] => (compare a 0).then (compareParts as [])
  | a :: as, b :: bs => (compare a b).then (compareParts as bs)

/-- The order of two version texts; `none` if either is no version. -/
def compare? (a b : List Char) : Option Ordering := do
  let a ← parse? a
  let b ← parse? b
  return compareParts a b

/-! ## Small facts -/

@[simp] theorem compareParts_self (a : List Nat) : compareParts a a = .eq := by
  induction a with
  | nil => rfl
  | cons x r ih => simp [compareParts, ih]

example : parse? "12.4.1".toList = some [12, 4, 1] := by decide +kernel
example : parse? " +9.0 ".toList = some [9, 0] := by decide +kernel
example : parse? "9.".toList = none := by decide +kernel
example : parse? "4294967296".toList = none := by decide +kernel
example : compare? "9".toList "9.0.0".toList = some .eq := by decide +kernel

end Version

end HeaderCatalog
