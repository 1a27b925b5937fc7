import HeaderCatalog.Handle.Basic
import HeaderCatalog.Json.Place

set_option autoImplicit false

/-!
# Type handles as JSON

A handle is written with every field and read with its kind alone required.
-/

namespace HeaderCatalog

namespace TypeHandle

/-- The fields of a handle, in order. -/
def fieldNames : List String :=
  ["kind", "spelling", "pointee", "canonical", "result", "arguments", "fields", "element", "size", "variadic",
    "declaration"]

mutual

/-- A handle with every field. -/
def toJson : TypeHandle → Json
  | { kind, spelling, pointee, canonical, result, arguments, fields, element, size, variadic, declaration } =>
    .object
      [("kind", .text kind.tag), ("spelling", .text spelling), ("pointee", optionToJson pointee),
        ("canonical", optionToJson canonical), ("result", optionToJson result),
        ("arguments", .list (listToJson arguments)), ("fields", .list (fieldsToJson fields)),
        ("element", optionToJson element), ("size", .ofOption (fun n : UInt64 => .int n.toNat) size),
        ("variadic", .bool variadic), ("declaration", .ofOption Location.toJson declaration)]

/-- A handle that may be missing. -/
def optionToJson : Option TypeHandle → Json
  | none => .null
  | some handle => toJson handle

/-- The handles of a list. -/
def listToJson : List TypeHandle → List Json
  | [] => []
  | handle :: rest => toJson handle :: listToJson rest

/-- The fields of a record. -/
def fieldsToJson : List FieldHandle → List Json
  | [] => []
  | { name, type } :: rest => .object [("name", .text name), ("type", toJson type)] :: fieldsToJson rest

end

mutual

/-- Reads a handle that may be nested as deep as the levels that are left. -/
def ofJsonWithin? : Nat → Json → Option TypeHandle
  | 0, _ => none
  | levels + 1, value => do
    match ← value.fields? fieldNames with
    | [kind, spelling, pointee, canonical, result, arguments, fields, element, size, variadic, declaration] =>
      return {
        kind := TypeKind.ofTag (← Json.required Json.text? kind)
        spelling := ← Json.defaulting "" Json.text? spelling
        pointee := ← Json.optional (ofJsonWithin? levels) pointee
        canonical := ← Json.optional (ofJsonWithin? levels) canonical
        result := ← Json.optional (ofJsonWithin? levels) result
        arguments := ← Json.defaulting [] (handlesOfJson? levels) arguments
        fields := ← Json.defaulting [] (fieldsOfJson? levels) fields
        element := ← Json.optional (ofJsonWithin? levels) element
        size := ← Json.optional Json.uint64? size
        variadic := ← Json.defaulting false Json.bool? variadic
        declaration := ← Json.optional (Location.ofJson? levels) declaration }
    | _ => none

/-- Reads a list of handles. -/
def handlesOfJson? : Nat → Json → Option (List TypeHandle)
  | levels + 1, .list items => items.mapM (ofJsonWithin? levels)
  | _, _ => none

/-- Reads the fields of a record. -/
def fieldsOfJson? : Nat → Json → Option (List FieldHandle)
  | levels + 1, .list items => items.mapM (fieldOfJson? levels)
  | _, _ => none

/-- Reads a field of a record; both its name and its type must be there. -/
def fieldOfJson? : Nat → Json → Option FieldHandle
  | 0, _ => none
  | levels + 1, value => do
    match ← value.fields? ["name", "type"] with
    | [name, type] => return ⟨← Json.required Json.text? name, ← Json.required (ofJsonWithin? levels) type⟩
    | _ => none

end

/-- Reads a handle. -/
def ofJson? (value : Json) : Option TypeHandle := ofJsonWithin? value.depth value

end TypeHandle

end HeaderCatalog
