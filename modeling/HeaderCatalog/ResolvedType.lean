import HeaderCatalog.Encoding.TypeName

set_option autoImplicit false

/-!
# Resolved types

What the catalogue says about a type: a coarse name, the spelling in the header, and the runtime encoding.
-/

namespace HeaderCatalog

/-- A type as the catalogue describes it. -/
structure ResolvedType where
  /-- The coarse name: `int`, `struct`, `block`, ... -/
  name : String
  /-- The spelling in the header. -/
  value : String
  encoding : Encoding
  deriving DecidableEq, Repr, Inhabited

namespace ResolvedType

/-- A type that could not be reduced; its spelling is kept. -/
def unknown (value : String) : ResolvedType := ⟨Encoding.unknownName, value, Encoding.unknown⟩

/-- The type of a call that returns nothing. -/
def void : ResolvedType := ⟨"void", "void", ['v']⟩

/-- Whether the type could not be reduced. -/
def isUnknown (type : ResolvedType) : Bool := type.encoding == Encoding.unknown

/-- The same type under another spelling. -/
def withValue (type : ResolvedType) (value : String) : ResolvedType := { type with value }

/-- The type behind an encoding, where nothing else is known. -/
def ofEncoding (encoding : String) : ResolvedType :=
  if Encoding.isUsable encoding.toList then
    let erased := Encoding.erase encoding.toList
    ⟨Encoding.typeName erased, encoding, erased⟩
  else unknown encoding

end ResolvedType

end HeaderCatalog
