import HeaderCatalog.Handle.Json
import HeaderCatalog.Json.Reader
import HeaderCatalog.Node.Basic

set_option autoImplicit false

/-!
# Nodes as JSON

A node is written with every field and read with its kind alone required.  A syntax tree is a text that holds one
node, nested no deeper than `maxLevels`, which is the root of a compiled unit.
-/

namespace HeaderCatalog

namespace Availability

/-- An availability with every field. -/
def toJson (availability : Availability) : Json :=
  .object
    [("introduced", .ofOption .text availability.introduced), ("deprecated", .ofOption .text availability.deprecated),
      ("obsoleted", .ofOption .text availability.obsoleted), ("unavailable", .bool availability.unavailable)]

/-- Reads an availability; every field may be missing. -/
def ofJson? : Nat → Json → Option Availability
  | 0, _ => none
  | _ + 1, value => do
    match ← value.fields? ["introduced", "deprecated", "obsoleted", "unavailable"] with
    | [introduced, deprecated, obsoleted, unavailable] =>
      return ⟨← Json.optional Json.text? introduced, ← Json.optional Json.text? deprecated,
        ← Json.optional Json.text? obsoleted, ← Json.defaulting false Json.bool? unavailable⟩
    | _ => none

end Availability

namespace Node

/-- The fields of a node, in order. -/
def fieldNames : List String :=
  ["kind", "name", "location", "type", "result_type", "encoding", "value", "optional", "attributes", "availability",
    "referenced", "children"]

mutual

/-- A node with every field. -/
def toJson : Node → Json
  | { kind, name, location, type, resultType, encoding, value, optional, attributes, availability, referenced,
      children } =>
    .object
      [("kind", .text kind.tag), ("name", .text name), ("location", .ofOption Location.toJson location),
        ("type", .ofOption TypeHandle.toJson type), ("result_type", .ofOption TypeHandle.toJson resultType),
        ("encoding", .ofOption .text encoding), ("value", .ofOption (fun n : Int64 => .int n.toInt) value),
        ("optional", .bool optional), ("attributes", .texts attributes),
        ("availability", .ofOption Availability.toJson availability),
        ("referenced", .ofOption Location.toJson referenced), ("children", .list (listToJson children))]

/-- The nodes of a list. -/
def listToJson : List Node → List Json
  | [] => []
  | node :: rest => toJson node :: listToJson rest

end

mutual

/-- Reads a node that may be nested as deep as the levels that are left. -/
def ofJsonWithin? : Nat → Json → Option Node
  | 0, _ => none
  | levels + 1, json => do
    match ← json.fields? fieldNames with
    | [kind, name, location, type, resultType, encoding, value, optional, attributes, availability, referenced,
        children] =>
      return {
        kind := NodeKind.ofTag (← Json.required Json.text? kind)
        name := ← Json.defaulting "" Json.text? name
        location := ← Json.optional (Location.ofJson? levels) location
        type := ← Json.optional (TypeHandle.ofJsonWithin? levels) type
        resultType := ← Json.optional (TypeHandle.ofJsonWithin? levels) resultType
        encoding := ← Json.optional Json.text? encoding
        value := ← Json.optional Json.int64? value
        optional := ← Json.defaulting false Json.bool? optional
        attributes := ← Json.defaulting [] (Json.texts? levels) attributes
        availability := ← Json.optional (Availability.ofJson? levels) availability
        referenced := ← Json.optional (Location.ofJson? levels) referenced
        children := ← Json.defaulting [] (nodesOfJson? levels) children }
    | _ => none

/-- Reads a list of nodes. -/
def nodesOfJson? : Nat → Json → Option (List Node)
  | levels + 1, .list items => items.mapM (ofJsonWithin? levels)
  | _, _ => none

end

/-- Reads a node. -/
def ofJson? (value : Json) : Option Node := ofJsonWithin? value.depth value

end Node

/-! ## Syntax trees -/

/-- Why a text is no syntax tree. -/
inductive TreeError where
  /-- The text is no node. -/
  | malformed
  /-- The node is not the root of a compiled unit. -/
  | wrongRoot (kind : NodeKind)
  deriving DecidableEq, Repr

/-- What is said about an error. -/
def TreeError.message : TreeError → String
  | malformed => "JSON error"
  | wrongRoot kind => "Invalid AST input: root node is a " ++ kind.tag ++ ", expected TranslationUnit"

namespace Node

/-- How deep the containers of a syntax tree may be nested. -/
def maxLevels : Nat := 127

/-- Reads a syntax tree from a value. -/
def treeOfJson (value : Json) : Except TreeError Node :=
  match ofJsonWithin? maxLevels value with
  | none => .error .malformed
  | some root => if root.kind = .unit then .ok root else .error (.wrongRoot root.kind)

/-- Reads a syntax tree from a text. -/
def treeOfText (text : String) : Except TreeError Node :=
  match Json.parse? text with
  | none => .error .malformed
  | some value => treeOfJson value

end Node

end HeaderCatalog
