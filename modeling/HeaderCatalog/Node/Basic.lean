import HeaderCatalog.Handle.Basic
import HeaderCatalog.Node.Kind
import HeaderCatalog.Version

set_option autoImplicit false

/-!
# Nodes of the syntax tree

A node is one declaration or reference with what the front end observed about it.  A declaration that is marked
unavailable, or that is obsolete at the oldest version that has to be served, does not apply.
-/

namespace HeaderCatalog

/-- On which versions of the platform a declaration can be used. -/
structure Availability where
  introduced : Option String := none
  deprecated : Option String := none
  obsoleted : Option String := none
  /-- Marked as not to be used at all. -/
  unavailable : Bool := false
  deriving DecidableEq, Repr, Inhabited

/-- Whether a declaration applies when `minVersion` is the oldest version to be served.  A version text that cannot be
read obsoletes nothing. -/
def Availability.appliesTo (availability : Availability) (minVersion : String) : Bool :=
  !availability.unavailable &&
    match availability.obsoleted with
    | none => true
    | some obsoleted =>
      match Version.compare? obsoleted.toList minVersion.toList with
      | some .lt | some .eq => false
      | some .gt | none => true

/-- A node of the syntax tree. -/
structure Node where
  kind : NodeKind
  /-- The selector of a method, the name of anything else, empty for an unnamed declaration. -/
  name : String := ""
  location : Option Location := none
  type : Option TypeHandle := none
  /-- What a method or function returns. -/
  resultType : Option TypeHandle := none
  /-- The runtime encoding that the front end reports for the declaration. -/
  encoding : Option String := none
  /-- The value of an enumeration constant, where it is written down. -/
  value : Option Int64 := none
  /-- Whether adopting a protocol leaves this requirement open. -/
  optional : Bool := false
  /-- The attributes of a property. -/
  attributes : List String := []
  availability : Option Availability := none
  /-- Where the entity that a reference names is declared. -/
  referenced : Option Location := none
  children : List Node := []
  deriving Inhabited

namespace Node

/-- The children of a kind, in order. -/
def childrenOf (node : Node) (kind : NodeKind) : List Node := node.children.filter (·.kind = kind)

/-- The first child of a kind. -/
def child? (node : Node) (kind : NodeKind) : Option Node := node.children.find? (·.kind = kind)

/-- The file of a node, empty where it has none. -/
def filename (node : Node) : String := (node.location.map (·.filename)).getD ""

/-- Whether a declaration applies when `minVersion` is the oldest version to be served. -/
def isAvailable (node : Node) (minVersion : String) : Bool :=
  match node.availability with
  | none => true
  | some availability => availability.appliesTo minVersion

/-- The version that introduced a declaration. -/
def introduced? (node : Node) : Option String := node.availability.bind (·.introduced)

end Node

end HeaderCatalog
