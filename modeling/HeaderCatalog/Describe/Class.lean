import HeaderCatalog.Describe.Signature
import HeaderCatalog.Entry.Basic

set_option autoImplicit false

/-!
# Describing classes, categories and protocols

A declaration with methods is described child by child.  References to a superclass or a protocol count even where
the member behind them would not be available; members that do not apply are left out.
-/

namespace HeaderCatalog.Surroundings

/-- A method; its encoding hints at the types that carry no handle of use. -/
def method (here : Surroundings) (owner : String) (node : Node) : Noted Method := do
  let encoding := node.encoding.getD ""
  let hints := (Encoding.methodArguments encoding.toList).map String.ofList
  let returnHint := (Encoding.returned? encoding.toList).map String.ofList
  let returns ← match node.resultType, returnHint with
    | some handle, hint => here.returned hint handle
    | none, some hint => pure { type := .ofEncoding hint }
    | none, none => pure .void
  let arguments ← here.arguments hints node
  pure
    { selector := node.name
      owner
      ofInstance := node.kind = .instanceMethod
      optional := node.optional
      returns
      arguments
      encoding
      introduced := node.introduced? }

/-- A property. -/
def property (here : Surroundings) (node : Node) : Noted Property := do
  let (type, block) ← here.declaredType node.encoding node.type
  pure
    { name := node.name
      type
      attributes := node.attributes
      optional := node.optional
      block
      introduced := node.introduced? }

/-- An instance variable. -/
def ivar (here : Surroundings) (node : Node) : Noted Ivar := do
  let (type, block) ← here.declaredType node.encoding node.type
  pure { name := node.name, type, block }

/-- The entry with one more child of its declaration taken into account. -/
def withChild (here : Surroundings) (entry : ClassEntry) (child : Node) : Noted ClassEntry :=
  match child.kind with
  | .superclassRef => do
    Noted.refer child.referenced
    pure { entry with superclass := some child.name }
  | .protocolRef => do
    Noted.refer child.referenced
    pure (entry.adopt child.name)
  | kind =>
    if child.isAvailable here.settings.minVersion then
      match kind with
      | .instanceMethod | .classMethod => do
        let method ← here.method entry.heading.name child
        pure { entry with methods := entry.methods ++ [method] }
      | .property => do
        let property ← here.property child
        pure { entry with properties := entry.properties ++ [property] }
      | .ivar => do
        let ivar ← here.ivar child
        pure { entry with ivars := entry.ivars ++ [ivar] }
      | _ => pure entry
    else pure entry

/-- The entry with all children of its declaration taken into account, in order. -/
def withChildren (here : Surroundings) (entry : ClassEntry) (node : Node) : Noted ClassEntry :=
  node.children.foldlM here.withChild entry

/-- A class. -/
def interface (here : Surroundings) (node : Node) : Noted ClassEntry := do
  let here ← here.enter node
  here.withChildren { kind := .class_, heading := here.heading .class_ node.name node } node

/-- A protocol. -/
def protocol (here : Surroundings) (node : Node) : Noted ClassEntry := do
  let here ← here.enter node
  here.withChildren { kind := .protocol, heading := here.heading .protocol node.name node } node

/-- The first child that refers to the class a category belongs to. -/
def extendedClass? (node : Node) : Option Node := node.child? .classRef

/-- A category, under the name of its class; nothing if it does not say which class that is. -/
def category? (here : Surroundings) (node : Node) : Noted (Option ClassEntry) :=
  match extendedClass? node with
  | none => pure none
  | some extended => do
    Noted.refer extended.referenced
    let here ← here.enter node
    let entry ← here.withChildren
      { kind := .extension
        heading := here.heading .extension extended.name node
        categories := if node.name.isEmpty then [] else [node.name] }
      node
    pure (some entry)

end HeaderCatalog.Surroundings
