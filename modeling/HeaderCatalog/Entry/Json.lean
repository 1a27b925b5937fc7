import HeaderCatalog.Entry.Basic
import HeaderCatalog.Json.Place

set_option autoImplicit false

/-!
# Entries as JSON

How each entry is written.  The order of the fields is fixed; some fields are left out where they would say nothing: a
version that is not reported, a block that is none, an empty list of categories, a mark that does not apply.
-/

namespace HeaderCatalog

/-- A field that is written only where there is a value. -/
def Json.present {α : Type} (key : String) (f : α → Json) : Option α → List (String × Json)
  | none => []
  | some value => [(key, f value)]

/-- A mark that is written only where it applies. -/
def Json.mark (key : String) (applies : Bool) : List (String × Json) := if applies then [(key, .bool true)] else []

/-- The fields that every entry starts with. -/
def Heading.entries (heading : Heading) : List (String × Json) :=
  [("name", .text heading.name), ("kind", .text heading.kind.word)] ++ heading.source.entries ++
    [("thirdparty", .bool heading.isThirdParty)] ++ Json.present "introducedIn" .text heading.introduced

mutual

/-- A block. -/
def Block.toJson : Block → Json
  | { heading, signature, returns, arguments, encoding, variadic } =>
    .object
      (heading.entries ++
        [("signature", .text signature), ("returns", returns.toJson),
          ("arguments", .list (argumentsToJson arguments)), ("encoding", .text (String.ofList encoding))] ++
        Json.mark "variadic" variadic)

/-- The fields of a block that may be none. -/
def optionalBlockEntries : Option Block → List (String × Json)
  | none => []
  | some block => [("block", block.toJson)]

/-- An argument; the name is left out where there is none. -/
def Argument.toJson : Argument → Json
  | { name, type, block } =>
    .object ((if name.isEmpty then [] else [("name", .text name)]) ++ type.entries ++ optionalBlockEntries block)

/-- The arguments of a list. -/
def argumentsToJson : List Argument → List Json
  | [] => []
  | argument :: rest => argument.toJson :: argumentsToJson rest

end

/-- A returned value. -/
def Returned.toJson (returned : Returned) : Json :=
  .object (returned.type.entries ++ optionalBlockEntries returned.block)

/-- A method. -/
def Method.toJson (method : Method) : Json :=
  .object
    ([("name", .text method.name), ("selector", .text method.selector), ("class", .text method.owner),
      ("instance", .bool method.ofInstance), ("optional", .bool method.optional), ("returns", method.returns.toJson),
      ("arguments", .list (argumentsToJson method.arguments)), ("encoding", .text method.encoding)] ++
      Json.present "introducedIn" .text method.introduced)

/-- A property. -/
def Property.toJson (property : Property) : Json :=
  .object
    ([("name", .text property.name)] ++ property.type.entries ++ [("attributes", .texts property.attributes)] ++
      Json.mark "optional" property.optional ++ optionalBlockEntries property.block ++
      Json.present "introducedIn" .text property.introduced)

/-- An instance variable. -/
def Ivar.toJson (ivar : Ivar) : Json :=
  .object ([("name", .text ivar.name)] ++ ivar.type.entries ++ optionalBlockEntries ivar.block)

/-- A class, the categories of a class, or a protocol. -/
def ClassEntry.toJson (entry : ClassEntry) : Json :=
  .object
    (entry.heading.entries ++ Json.present "superclass" .text entry.superclass ++
      (if entry.categories.isEmpty then [] else [("categories", .texts entry.categories)]) ++
      [("protocols", .texts entry.protocols), ("methods", .list (entry.methods.map (·.toJson))),
        ("properties", .list (entry.properties.map (·.toJson))), ("ivars", .list (entry.ivars.map (·.toJson)))])

/-- A field of a record. -/
def Field.toJson (field : Field) : Json := .object (("name", .text field.name) :: field.type.entries)

/-- A struct or union. -/
def RecordEntry.toJson (entry : RecordEntry) : Json :=
  .object
    (entry.heading.entries ++
      [("fields", .list (entry.fields.map (·.toJson))), ("encoding", .text (String.ofList entry.encoding))])

/-- A constant of an enumeration. -/
def EnumCase.toJson (constant : EnumCase) : Json :=
  .object [("name", .text constant.name), ("value", .int constant.value.toInt)]

/-- An enumeration. -/
def EnumEntry.toJson (entry : EnumEntry) : Json :=
  .object
    (entry.heading.entries ++ entry.type.entries ++ [("values", .list (entry.cases.map (·.toJson)))])

/-- A variable. -/
def GlobalEntry.toJson (entry : GlobalEntry) : Json := .object (entry.heading.entries ++ entry.type.entries)

/-- A function. -/
def FunctionEntry.toJson (entry : FunctionEntry) : Json :=
  .object
    (entry.heading.entries ++
      [("returns", entry.returns.toJson), ("arguments", .list (argumentsToJson entry.arguments))] ++
      Json.mark "variadic" entry.variadic)

/-- A typedef. -/
def SynonymEntry.toJson (entry : SynonymEntry) : Json := .object (entry.heading.entries ++ entry.type.entries)

/-- An entry of any kind. -/
def Entry.toJson : Entry → Json
  | class_ entry => entry.toJson
  | record entry => entry.toJson
  | enum entry => entry.toJson
  | global entry => entry.toJson
  | function entry => entry.toJson
  | block entry => entry.toJson
  | synonym entry => entry.toJson

end HeaderCatalog
