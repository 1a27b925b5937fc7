import HeaderCatalog.Encoding.Record

set_option autoImplicit false

/-!
# Kinds of types

A front end tags every type with its kind.  The kinds the catalogue tells apart are constructors, grouped by how they
are reduced: scalars by a table, records by their members, sugar through the type it stands for.  A tag the catalogue
does not know is kept as it is, so that no tag is lost between reading and writing (`tag_ofTag`).
-/

namespace HeaderCatalog

/-- The scalar types of C. -/
inductive Scalar where
  | void
  | bool
  /-- Plain `char` where it is signed. -/
  | plainSignedChar
  | signedChar
  /-- Plain `char` where it is unsigned. -/
  | plainUnsignedChar
  | unsignedChar
  | char16
  | char32
  | wideChar
  | short
  | unsignedShort
  | int
  | unsignedInt
  | long
  | unsignedLong
  | longLong
  | unsignedLongLong
  | int128
  | unsignedInt128
  | float
  | double
  | longDouble
  deriving DecidableEq, Repr, Inhabited

namespace Scalar

/-- The tag, the type name and the code of each scalar.  A `long` has 64 bits, so it is encoded like a `long long`. -/
def row : Scalar → String × String × Char
  | void => ("Void", "void", 'v')
  | bool => ("Bool", "bool", 'B')
  | plainSignedChar => ("CharS", "char", 'c')
  | signedChar => ("SChar", "char", 'c')
  | plainUnsignedChar => ("CharU", "uchar", 'C')
  | unsignedChar => ("UChar", "uchar", 'C')
  | char16 => ("Char16", "ushort", 'S')
  | char32 => ("Char32", "uint", 'I')
  | wideChar => ("WChar", "int", 'i')
  | short => ("Short", "short", 's')
  | unsignedShort => ("UShort", "ushort", 'S')
  | int => ("Int", "int", 'i')
  | unsignedInt => ("UInt", "uint", 'I')
  | long => ("Long", "long", 'q')
  | unsignedLong => ("ULong", "ulong", 'Q')
  | longLong => ("LongLong", "long_long", 'q')
  | unsignedLongLong => ("ULongLong", "ulong_long", 'Q')
  | int128 => ("Int128", "int128", 't')
  | unsignedInt128 => ("UInt128", "uint128", 'T')
  | float => ("Float", "float", 'f')
  | double => ("Double", "double", 'd')
  | longDouble => ("LongDouble", "long_double", 'D')

/-- The tag of a scalar. -/
def tag (scalar : Scalar) : String := scalar.row.1

/-- The type name of a scalar. -/
def typeName (scalar : Scalar) : String := scalar.row.2.1

/-- The code of a scalar. -/
def code (scalar : Scalar) : Char := scalar.row.2.2

/-- Whether a pointer to the scalar is a C string. -/
def isChar : Scalar → Bool
  | plainSignedChar | signedChar | plainUnsignedChar | unsignedChar => true
  | _ => false

/-- Every scalar. -/
def all : List Scalar :=
  [void, bool, plainSignedChar, signedChar, plainUnsignedChar, unsignedChar, char16, char32, wideChar, short,
    unsignedShort, int, unsignedInt, long, unsignedLong, longLong, unsignedLongLong, int128, unsignedInt128, float,
    double, longDouble]

end Scalar

/-- The ways of naming a type that add nothing to it. -/
inductive Sugar where
  | synonym
  /-- With a keyword in front, as in `struct Point`. -/
  | elaborated
  /-- With an attribute, such as a nullability mark. -/
  | attributed
  deriving DecidableEq, Repr, Inhabited

/-- The tag of a sugar. -/
def Sugar.tag : Sugar → String
  | synonym => "Typedef"
  | elaborated => "Elaborated"
  | attributed => "Attributed"

/-- What kind of type a front end reports. -/
inductive TypeKind where
  | scalar (scalar : Scalar)
  | pointer
  | blockPointer
  /-- The type `id`. -/
  | objcId
  /-- The type `Class`. -/
  | objcClass
  /-- The type `SEL`. -/
  | objcSelector
  /-- A pointer to an object of a named class. -/
  | objcObjectPointer
  | objcInterface
  | objcObject
  /-- A type parameter of a generic class. -/
  | objcTypeParam
  | record (kind : RecordKind)
  | enum
  | sugar (sugar : Sugar)
  /-- A function, with a prototype or without. -/
  | function (prototyped : Bool)
  | constantArray
  | incompleteArray
  | vector
  | unexposed
  | dependent
  | invalid
  /-- A tag that is none of the above. -/
  | other (tag : String)
  deriving DecidableEq, Repr, Inhabited

namespace TypeKind

/-- The tag of a kind. -/
def tag : TypeKind → String
  | scalar s => s.tag
  | pointer => "Pointer"
  | blockPointer => "BlockPointer"
  | objcId => "ObjCId"
  | objcClass => "ObjCClass"
  | objcSelector => "ObjCSel"
  | objcObjectPointer => "ObjCObjectPointer"
  | objcInterface => "ObjCInterface"
  | objcObject => "ObjCObject"
  | objcTypeParam => "ObjCTypeParam"
  | record .struct => "Struct"
  | record .union => "Union"
  | enum => "Enum"
  | sugar s => s.tag
  | function true => "FunctionProto"
  | function false => "FunctionNoProto"
  | constantArray => "ConstantArray"
  | incompleteArray => "IncompleteArray"
  | vector => "Vector"
  | unexposed => "Unexposed"
  | dependent => "Dependent"
  | invalid => "Invalid"
  | other tag => tag

/-- Every kind that has a constructor of its own. -/
def known : List TypeKind :=
  Scalar.all.map scalar ++
    [pointer, blockPointer, objcId, objcClass, objcSelector, objcObjectPointer, objcInterface, objcObject,
      objcTypeParam, record .struct, record .union, enum, sugar .synonym, sugar .elaborated, sugar .attributed,
      function true, function false, constantArray, incompleteArray, vector, unexposed, dependent, invalid]

/-- The kind with a tag. -/
def ofTag (tag : String) : TypeKind := (known.find? (·.tag = tag)).getD (other tag)

/-- No tag is lost: a kind read from a tag is written as that tag. -/
@[simp] theorem tag_ofTag (s : String) : (ofTag s).tag = s := by
  unfold ofTag
  cases h : known.find? (·.tag = s) with
  | none => rfl
  | some kind => simpa using List.find?_some h

/-- Tags and the kinds read from them correspond one to one. -/
theorem ofTag_inj {s t : String} : ofTag s = ofTag t ↔ s = t :=
  ⟨fun h => by rw [← tag_ofTag s, h, tag_ofTag], fun h => h ▸ rfl⟩

/-- Whether a kind is sugar. -/
def isSugar : TypeKind → Bool
  | sugar _ => true
  | _ => false

/-- Whether a kind is that of a function. -/
def isFunction : TypeKind → Bool
  | function _ => true
  | _ => false

/-- Whether a pointer to a type of this kind is a C string. -/
def isChar : TypeKind → Bool
  | scalar s => s.isChar
  | _ => false

end TypeKind

end HeaderCatalog
