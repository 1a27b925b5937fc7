import HeaderCatalog.Encoding.Token

set_option autoImplicit false

/-!
# Encodings of records

A struct is written between braces and a union between parentheses: the name alone (the bare form), or the name, an
equals sign and the encodings of the members in order.
-/

namespace HeaderCatalog

/-- The two kinds of record. -/
inductive RecordKind where
  | struct
  | union
  deriving DecidableEq, Repr, Inhabited

namespace RecordKind

/-- The keyword of a kind, also the type name of its values. -/
def keyword : RecordKind → String
  | struct => "struct"
  | union => "union"

/-- The kind with a keyword. -/
def ofKeyword? (s : String) : Option RecordKind :=
  if s = "struct" then some struct else if s = "union" then some union else none

/-- The bracket that opens the encoding of a kind. -/
def opening : RecordKind → Char
  | struct => '{'
  | union => '('

/-- The bracket that closes the encoding of a kind. -/
def closing : RecordKind → Char
  | struct => '}'
  | union => ')'

@[simp] theorem ofKeyword?_keyword (kind : RecordKind) : ofKeyword? kind.keyword = some kind := by
  cases kind <;> decide

end RecordKind

namespace Encoding

/-- The encoding of a record: bare without members, otherwise with the encodings of the members. -/
def record (kind : RecordKind) (name : String) (members : Option (List Encoding)) : Encoding :=
  match members with
  | none => kind.opening :: name.toList ++ [kind.closing]
  | some members => kind.opening :: name.toList ++ '=' :: members.flatten ++ [kind.closing]

end Encoding

end HeaderCatalog
