import HeaderCatalog.Json.Value

set_option autoImplicit false

/-!
# Reading structures from JSON

A structure is read from an object or from a list of its fields in order.  In an object, keys that name no field are
skipped, whatever they hold, and a key that names a field may stand once.  In a list, fields at the end may be missing
and nothing may follow the last one.  Whether a missing field is an error is for the field to say.

Readers of containers take the number of levels that may still be entered, so a text that is nested too deeply is
refused; what is skipped is not entered.
-/

namespace HeaderCatalog.Json

/-- The fields of a structure, in the order of their names; `none` for a missing one. -/
def fields? (names : List String) : Json → Option (List (Option Json))
  | list items =>
    if items.length ≤ names.length then some ((List.range names.length).map (items[·]?)) else none
  | object entries =>
    names.mapM fun name =>
      match entries.filter (·.1 = name) with
      | [] => some none
      | [(_, value)] => some (some value)
      | _ => none
  | _ => none

/-- A text. -/
def text? : Json → Option String
  | text value => some value
  | _ => none

/-- A truth value. -/
def bool? : Json → Option Bool
  | bool value => some value
  | _ => none

/-- The name of a choice without contents: a text, or an object in which that name is the only key and stands for
`null`. -/
def choice? : Json → Option String
  | text name => some name
  | object [(name, null)] => some name
  | _ => none

/-- An integer between two bounds. -/
def intBetween? (low high : Int) : Json → Option Int
  | int value => if low ≤ value && value ≤ high then some value else none
  | _ => none

/-- An unsigned number of 32 bits. -/
def uint32? (value : Json) : Option UInt32 :=
  (value.intBetween? 0 (Int.ofNat UInt32.size - 1)).map fun n => UInt32.ofNat n.toNat

/-- An unsigned number of 64 bits. -/
def uint64? (value : Json) : Option UInt64 :=
  (value.intBetween? 0 (Int.ofNat UInt64.size - 1)).map fun n => UInt64.ofNat n.toNat

/-- A signed number of 64 bits. -/
def int64? (value : Json) : Option Int64 :=
  (value.intBetween? Int64.minValue.toInt Int64.maxValue.toInt).map Int64.ofInt

/-- A list of values of one shape, with the levels left inside it. -/
def list? {α : Type} (read? : Nat → Json → Option α) : Nat → Json → Option (List α)
  | levels + 1, list items => items.mapM (read? levels)
  | _, _ => none

/-- A list of texts. -/
def texts? : Nat → Json → Option (List String) := list? fun _ => text?

/-! ## Fields -/

/-- A field that must be there. -/
def required {α : Type} (read? : Json → Option α) : Option Json → Option α
  | none => none
  | some value => read? value

/-- A field with a value of its own where it is missing. -/
def defaulting {α : Type} (start : α) (read? : Json → Option α) : Option Json → Option α
  | none => some start
  | some value => read? value

/-- A field that may be missing or `null`. -/
def optional {α : Type} (read? : Json → Option α) : Option Json → Option (Option α)
  | none => some none
  | some null => some none
  | some value => (read? value).map some

end HeaderCatalog.Json
