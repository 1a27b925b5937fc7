import HeaderCatalog.Encoding.Erasure

set_option autoImplicit false

/-!
# Type names of encodings

The document gives every type a coarse name.  Where only an encoding is known, the name follows from the first code of
its erased form; blocks and function pointers are told apart from objects and other pointers by their second code.
-/

namespace HeaderCatalog.Encoding

/-- The encoding of a type that could not be reduced. -/
def unknown : Encoding := ['?']

/-- The name of a type that could not be reduced. -/
def unknownName : String := "unknown"

/-- The type name for the first code of an encoding. -/
def codeName : Char → String
  | 'c' => "char"
  | 'i' => "int"
  | 's' => "short"
  | 'l' => "long"
  | 'q' => "long_long"
  | 'C' => "uchar"
  | 'I' => "uint"
  | 'S' => "ushort"
  | 'L' => "ulong"
  | 'Q' => "ulong_long"
  | 't' => "int128"
  | 'T' => "uint128"
  | 'f' => "float"
  | 'd' => "double"
  | 'D' => "long_double"
  | 'B' => "bool"
  | 'v' => "void"
  | '*' => "pointer"
  | '^' => "pointer"
  | '@' => "id"
  | '#' => "class"
  | ':' => "SEL"
  | '{' => "struct"
  | '(' => "union"
  | '[' => "constant_array"
  | 'b' => "bitfield"
  | _ => unknownName

/-- The type name of an encoding. -/
def typeName (s : Encoding) : String :=
  match erase s with
  | '@' :: '?' :: _ => "block"
  | '^' :: '?' :: _ => "function_callback"
  | c :: _ => codeName c
  | [] => unknownName

/-- Whether an encoding says something about the type: its erased form is neither empty nor the unknown mark. -/
def isUsable (s : Encoding) : Bool := erase s ≠ [] && erase s ≠ unknown

end HeaderCatalog.Encoding
