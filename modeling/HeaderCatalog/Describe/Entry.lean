import HeaderCatalog.Describe.Class

set_option autoImplicit false

/-!
# Describing the other declarations

Records, enumerations, variables, functions and typedefs.
-/

namespace HeaderCatalog.Surroundings

/-- A field of a record. -/
def field (here : Surroundings) (node : Node) : Noted Field := do
  let type ← match node.type with
    | none => pure (.ofEncoding (node.encoding.getD ""))
    | some handle => here.memberType node.encoding handle
  pure { name := node.name, type }

/-- A struct or union. -/
def record (here : Surroundings) (kind : RecordKind) (node : Node) : Noted RecordEntry := do
  let here ← here.enter node
  let fields ← (node.childrenOf .field).mapM here.field
  pure (RecordEntry.encoded { heading := here.heading (.record kind) node.name node, fields, encoding := [] })

/-! ## Enumerations -/

/-- The integer type behind an enumeration; one that is not reported is an `int`. -/
def integerType (here : Surroundings) (node : Node) : Noted ResolvedType :=
  match node.type with
  | none => pure ⟨"int", "int", ['i']⟩
  | some handle => here.type node.encoding handle

/-- The constants of an enumeration that apply. -/
def availableConstants (here : Surroundings) (node : Node) : List Node :=
  (node.childrenOf .enumConstant).filter (·.isAvailable here.settings.minVersion)

/-- Constants with their values.  One without a value of its own has the value after the one before it, the first
one zero; the greatest value is followed by the least. -/
def numbered (next : Int64) : List Node → List EnumCase
  | [] => []
  | constant :: rest =>
    let value := constant.value.getD next
    ⟨constant.name, value⟩ :: numbered (value + 1) rest

/-- An enumeration with a name. -/
def enum (here : Surroundings) (node : Node) : Noted EnumEntry := do
  let here ← here.enter node
  let type ← here.integerType node
  pure { heading := here.heading .enum node.name node, type, cases := numbered 0 (here.availableConstants node) }

/-- Whether an enumeration has no name, so that its constants stand for themselves. -/
def isAnonymousEnum (node : Node) : Bool := Naming.isAnonymous node.name

/-- The constants of an enumeration without a name, each as a variable at its own place. -/
def anonymousConstants (here : Surroundings) (node : Node) : Noted (List GlobalEntry) := do
  let type ← here.integerType node
  (here.availableConstants node).mapM fun constant => do
    let here ← here.enter constant
    pure { heading := here.heading .global constant.name constant, type }

/-! ## Variables, functions and typedefs -/

/-- A variable. -/
def global (here : Surroundings) (node : Node) : Noted GlobalEntry := do
  let here ← here.enter node
  let (type, _) ← here.declaredType node.encoding node.type
  pure { heading := here.heading .global node.name node, type }

/-- A function.  What it returns may be reported with the declaration or with its type. -/
def function (here : Surroundings) (node : Node) : Noted FunctionEntry := do
  let here ← here.enter node
  let proto := node.type.map (·.desugared)
  let returns ← match node.resultType.or (proto.bind (·.result)) with
    | some handle => here.returned none handle
    | none => pure .void
  let arguments ← here.arguments [] node
  pure
    { heading := here.heading .function node.name node
      returns
      arguments
      variadic := (proto.map (·.variadic)).getD false }

/-- A typedef; its handle is that of the type behind it. -/
def synonym (here : Surroundings) (node : Node) : Noted SynonymEntry := do
  let here ← here.enter node
  let (type, _) ← here.declaredType node.encoding node.type
  pure { heading := here.heading .synonym node.name node, type }

/-- A typedef that names a record. -/
def synonymOfRecord (here : Surroundings) (entry : RecordEntry) (node : Node) : Noted SynonymEntry := do
  let here ← here.enter node
  pure { heading := here.heading .synonym node.name node, type := entry.asType }

end HeaderCatalog.Surroundings
