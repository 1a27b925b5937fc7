import HeaderCatalog.Encoding.Record
import Mathlib.Data.List.Chain

set_option autoImplicit false

/-!
# The grammar of encodings

The values of the grammar as syntax trees, and the texts they are written as.  The characters that the grammar
restricts carry the restriction with them, so every tree is well formed and its text a value.

A value is written with nothing around it.  Where it ends is decided by what follows: the digits of a bit field run on,
an object looks like a block if a question mark comes next, and a block looks like one with a signature if an angle
bracket does.  `Separated` asks this of a sequence of values with offsets between them, and of nothing deeper: inside
brackets any sequence of values will do.
-/

namespace HeaderCatalog

/-! ## Restricted texts -/

/-- A possibly empty text of certain characters. -/
abbrev Run (allowed : Char → Bool) : Type := { text : List Char // text.all allowed = true }

theorem Run.allowed_of_mem {allowed : Char → Bool} (run : Run allowed) {c : Char} (h : c ∈ run.1) : allowed c = true :=
  List.all_eq_true.1 run.2 c h

namespace Encoding

/-- The brackets that groups are written between. -/
def brackets : List (Char × Char) := [('{', '}'), ('(', ')'), ('[', ']'), ('<', '>')]

/-- Whether a character can stand in the name of a record: it is neither bracket nor quote. -/
def isNameCharacter (c : Char) : Bool := c != '"' && brackets.all fun pair => c != pair.1 && c != pair.2

/-- The codes that are types by themselves; the question mark is an unknown type. -/
def primitives : List Char :=
  ['c', 'i', 's', 'l', 'q', 'C', 'I', 'S', 'L', 'Q', 't', 'T', 'f', 'd', 'D', 'B', 'v', '*', '#', ':', '?']

end Encoding

open Encoding

/-! ## Values -/

/-- A value of the grammar. -/
inductive EncodedValue where
  | primitive (code : { c : Char // c ∈ primitives })
  | qualified (qualifier : { c : Char // isQualifier c = true }) (value : EncodedValue)
  | pointer (target : EncodedValue)
  | array (count : Run Char.isDigit) (element : EncodedValue)
  /-- A record of which the name alone is written. -/
  | bareRecord (kind : RecordKind) (name : Run isNameCharacter)
  | record (kind : RecordKind) (name : Run isNameCharacter) (members : List EncodedValue)
  | object
  /-- An object of a class; the name of the class may hold anything but a quote. -/
  | objectOf (name : Run (· != '"'))
  | block
  /-- A block with its signature, whose values may have digits behind them. -/
  | blockOf (signature : List (EncodedValue × Run Char.isDigit))
  | bitField (width : Run Char.isDigit)

namespace EncodedValue

mutual

/-- The text of a value. -/
def text : EncodedValue → Encoding
  | primitive code => [code.1]
  | qualified qualifier value => qualifier.1 :: text value
  | pointer target => '^' :: text target
  | array count element => '[' :: (count.1 ++ text element) ++ [']']
  | bareRecord kind name => kind.opening :: name.1 ++ [kind.closing]
  | record kind name members => kind.opening :: (name.1 ++ '=' :: textOfMembers members) ++ [kind.closing]
  | object => ['@']
  | objectOf name => '@' :: '"' :: name.1 ++ ['"']
  | block => ['@', '?']
  | blockOf signature => '@' :: '?' :: '<' :: textOfSignature signature ++ ['>']
  | bitField width => 'b' :: width.1

/-- The text of values one after the other. -/
def textOfMembers : List EncodedValue → Encoding
  | [] => []
  | value :: rest => text value ++ textOfMembers rest

/-- The text of the values of a signature with the digits behind them. -/
def textOfSignature : List (EncodedValue × Run Char.isDigit) → Encoding
  | [] => []
  | (value, digits) :: rest => text value ++ digits.1 ++ textOfSignature rest

end

/-- Whether the text of a value ends in the code of an object and nothing behind it. -/
def endsInObject : EncodedValue → Bool
  | object => true
  | qualified _ value | pointer value => value.endsInObject
  | _ => false

/-- Whether the text of a value ends in the code of a block without signature. -/
def endsInBlock : EncodedValue → Bool
  | block => true
  | qualified _ value | pointer value => value.endsInBlock
  | _ => false

/-- Whether the text of a value ends in a bit field. -/
def endsInBitField : EncodedValue → Bool
  | bitField _ => true
  | qualified _ value | pointer value => value.endsInBitField
  | _ => false

/-- Whether a value can start with a character: no value starts like an offset, with a quote or with an angle
bracket. -/
def canStart (c : Char) : Bool := !isOffset c && c != '"' && c != '<'

/-- A value has a first character. -/
theorem exists_text_eq_cons (value : EncodedValue) : ∃ c rest, value.text = c :: rest ∧ canStart c = true := by
  cases value with
  | primitive code =>
    have hcodes : primitives.all canStart = true := by decide
    exact ⟨code.1, [], rfl, List.all_eq_true.1 hcodes code.1 code.2⟩
  | qualified qualifier value =>
    obtain ⟨c, hc⟩ := qualifier
    refine ⟨c, value.text, rfl, ?_⟩
    simp only [isQualifier, Bool.or_eq_true, beq_iff_eq] at hc
    rcases hc with (((((((rfl | rfl) | rfl) | rfl) | rfl) | rfl) | rfl) | rfl) | rfl <;> decide
  | pointer target => exact ⟨'^', target.text, rfl, by decide⟩
  | array count element => exact ⟨'[', _, rfl, by decide⟩
  | bareRecord kind name => cases kind <;> exact ⟨_, _, rfl, by decide⟩
  | record kind name members => cases kind <;> exact ⟨_, _, rfl, by decide⟩
  | object => exact ⟨'@', [], rfl, by decide⟩
  | objectOf name => exact ⟨'@', _, rfl, by decide⟩
  | block => exact ⟨'@', _, rfl, by decide⟩
  | blockOf signature => exact ⟨'@', _, rfl, by decide⟩
  | bitField width => exact ⟨'b', _, rfl, by decide⟩

end EncodedValue

/-! ## Sequences of values -/

/-- Values, each with the frame offset behind it. -/
abbrev PlacedValues := List (EncodedValue × Run isOffset)

namespace PlacedValues

/-- The text of values with the offsets behind them. -/
def text (parts : PlacedValues) : Encoding := parts.flatMap fun part => part.1.text ++ part.2.1

/-- Whether values with offsets can be told apart when they are written one after the other. -/
structure Separated (parts : PlacedValues) : Prop where
  /-- No offset stands behind a bit field, -/
  bitField : ∀ part ∈ parts, part.1.endsInBitField = true → part.2.1 = []
  /-- and no question mark right behind an object. -/
  object : parts.IsChain fun part next =>
    part.1.endsInObject = true → part.2.1 = [] → next.1.text.head? ≠ some '?'

instance : DecidablePred Separated := fun _ =>
  decidable_of_iff (_ ∧ _) ⟨fun h => ⟨h.1, h.2⟩, fun h => ⟨h.bitField, h.object⟩⟩

/-- The encoding of a method: what it returns, its receiver, its selector and the arguments. -/
def ofMethod (result receiver selector : Run isOffset) (returns : EncodedValue) (arguments : PlacedValues) :
    PlacedValues :=
  (returns, result) :: (.object, receiver) :: (.primitive ⟨':', by decide⟩, selector) :: arguments

end PlacedValues

end HeaderCatalog
