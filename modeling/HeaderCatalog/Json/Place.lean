import HeaderCatalog.Json.Shape
import HeaderCatalog.Location
import HeaderCatalog.ResolvedType

set_option autoImplicit false

/-!
# Places and types as JSON

Locations as they are reported, sources as they are classified, and resolved types.
-/

namespace HeaderCatalog

namespace Location

/-- The fields of a location. -/
def fieldNames : List String := ["filename", "line"]

/-- A location with every field. -/
def toJson (location : Location) : Json :=
  .object [("filename", .text location.filename), ("line", .int location.line.toNat)]

/-- Reads a location; the line may be missing. -/
def ofJson? : Nat → Json → Option Location
  | 0, _ => none
  | _ + 1, value => do
    match ← value.fields? fieldNames with
    | [filename, line] =>
      return ⟨← Json.required Json.text? filename, ← Json.defaulting 0 Json.uint32? line⟩
    | _ => none

end Location

namespace Source

/-- The fields of a source, as entries of an object. -/
def entries (source : Source) : List (String × Json) :=
  [("filename", .text source.filename), ("line", .int source.line.toNat), ("framework", .text source.framework),
    ("location", .text source.origin.word)]

/-- A source with every field. -/
def toJson (source : Source) : Json := .object source.entries

/-- Reads an origin, which is a choice among its words. -/
def originOfJson? (value : Json) : Option Origin := value.choice?.bind Origin.ofWord?

/-- Reads a source; every field must be there. -/
def ofJson? (value : Json) : Option Source := do
  match ← value.fields? ["filename", "line", "framework", "location"] with
  | [filename, line, framework, origin] =>
    return ⟨← Json.required Json.text? filename, ← Json.required Json.uint32? line,
      ← Json.required Json.text? framework, ← Json.required originOfJson? origin⟩
  | _ => none

end Source

namespace ResolvedType

/-- The fields of a type, as entries of an object. -/
def entries (type : ResolvedType) : List (String × Json) :=
  [("type", .text type.name), ("value", .text type.value), ("encoding", .text (String.ofList type.encoding))]

/-- A type with every field. -/
def toJson (type : ResolvedType) : Json := .object type.entries

/-- Reads a type; every field must be there. -/
def ofJson? (value : Json) : Option ResolvedType := do
  match ← value.fields? ["type", "value", "encoding"] with
  | [name, spelling, encoding] =>
    return ⟨← Json.required Json.text? name, ← Json.required Json.text? spelling,
      (← Json.required Json.text? encoding).toList⟩
  | _ => none

end ResolvedType

end HeaderCatalog
