import HeaderCatalog.Encoding.Record

set_option autoImplicit false

/-!
# Kinds of entries

A catalogue has entries of ten kinds.  The name of an entry is unique within its kind; blocks are named by their
spelling and kept apart by framework.
-/

namespace HeaderCatalog

/-- What an entry of the catalogue describes. -/
inductive EntryKind where
  | class_
  /-- The categories of a class, taken together. -/
  | extension
  | protocol
  | record (kind : RecordKind)
  | enum
  | global
  | function
  | block
  | synonym
  deriving DecidableEq, Repr, Inhabited

namespace EntryKind

/-- The word for a kind. -/
def word : EntryKind → String
  | class_ => "class"
  | extension => "extension"
  | protocol => "protocol"
  | record kind => kind.keyword
  | enum => "enum"
  | global => "var"
  | function => "function"
  | block => "block"
  | synonym => "typedef"

/-- Every kind. -/
def all : List EntryKind :=
  [class_, extension, protocol, record .struct, record .union, enum, global, function, block, synonym]

/-- The kind with a word. -/
def ofWord? (word : String) : Option EntryKind := all.find? (·.word = word)

end EntryKind

/-- An entry by kind and name. -/
structure EntryRef where
  kind : EntryKind
  name : String
  deriving DecidableEq, Repr, Inhabited

/-- The text that names an entry. -/
def EntryRef.text (ref : EntryRef) : String := ref.kind.word ++ " " ++ ref.name

end HeaderCatalog
