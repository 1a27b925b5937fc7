import HeaderCatalog.Handle.Basic

set_option autoImplicit false

/-!
# Building type handles

Handles of the common types, spelled the way a compiler spells them.
-/

namespace HeaderCatalog.TypeHandle

/-- A pointer to a type. -/
def pointerTo (pointee : TypeHandle) : TypeHandle :=
  { kind := .pointer, spelling := pointee.spelling ++ " *", pointee := some pointee }

/-- A pointer to an object of a class. -/
def objectPointer (className : String) : TypeHandle :=
  { kind := .objcObjectPointer, spelling := className ++ " *",
    pointee := some { kind := .objcInterface, spelling := className } }

/-- The spellings of argument types, as they stand between parentheses. -/
def argumentList (arguments : List TypeHandle) : String := ", ".intercalate (arguments.map (·.spelling))

/-- A function type with a prototype. -/
def functionProto (result : TypeHandle) (arguments : List TypeHandle) : TypeHandle :=
  { kind := .function true, spelling := result.spelling ++ " (" ++ argumentList arguments ++ ")",
    result := some result, arguments }

/-- The spelling of a pointer to a function; `mark` tells blocks from plain pointers. -/
def callableSpelling (mark : String) (result : TypeHandle) (arguments : List TypeHandle) : String :=
  result.spelling ++ " (" ++ mark ++ ")(" ++ argumentList arguments ++ ")"

/-- A block. -/
def block (result : TypeHandle) (arguments : List TypeHandle) : TypeHandle :=
  { kind := .blockPointer, spelling := callableSpelling "^" result arguments,
    pointee := some (functionProto result arguments) }

/-- A pointer to a function. -/
def functionPointer (result : TypeHandle) (arguments : List TypeHandle) : TypeHandle :=
  { kind := .pointer, spelling := callableSpelling "*" result arguments,
    pointee := some (functionProto result arguments) }

/-- A record with a spelling and fields; the kind is the caller's. -/
def recordNamed (kind : TypeKind) (spelling : String) (fields : List FieldHandle) : TypeHandle :=
  { kind, spelling, fields }

/-- A record with a name and fields. -/
def recordOf (kind : RecordKind) (name : String) (fields : List FieldHandle) : TypeHandle :=
  recordNamed (.record kind) (kind.keyword ++ " " ++ name) fields

/-- A typedef of a type. -/
def synonym (name : String) (underlying : TypeHandle) : TypeHandle :=
  { kind := .sugar .synonym, spelling := name, canonical := some underlying }

/-- An enumeration over an integer type. -/
def enumOf (name : String) (integer : TypeHandle) : TypeHandle :=
  { kind := .enum, spelling := "enum " ++ name, canonical := some integer }

/-- An array of known length. -/
def constantArray (element : TypeHandle) (size : UInt64) : TypeHandle :=
  { kind := .constantArray, spelling := element.spelling ++ " [" ++ toString size.toNat ++ "]",
    element := some element, size := some size }

/-- The handle of a type declared at a place. -/
def declaredAt (handle : TypeHandle) (filename : String) (line : UInt32) : TypeHandle :=
  { handle with declaration := some ⟨filename, line⟩ }

/-- The handle of a function that takes further arguments. -/
def asVariadic (handle : TypeHandle) : TypeHandle := { handle with variadic := true }

end HeaderCatalog.TypeHandle
