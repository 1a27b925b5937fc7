import HeaderCatalog.Session

set_option autoImplicit false

/-!
# Describing in place

A declaration can also be described on the session itself.  Going to a declaration, every reference and every block
change the session at once, and what is described next finds it changed: a block is registered before the next argument
is resolved, and the place of a block is where the session is by then.

`Working` is such work, step by step.  Each definition here says what the one of the same name for `Surroundings` says,
but reads from the session where that one is given its surroundings, and writes to it where that one notes something.
-/

namespace HeaderCatalog

/-- Work on a session that yields a value. -/
abbrev Working := StateM Session

namespace Working

variable {α : Type}

/-! ## Steps -/

/-- The surroundings as they are by now. -/
def surroundings : Working Surroundings := Session.surroundings <$> get

/-- Goes to a declaration, which has its heading there. -/
def enter (kind : EntryKind) (name : String) (node : Node) : Working Heading := do
  modify (·.locate node)
  let here ← surroundings
  pure (here.heading kind name node)

/-- Notes a reference. -/
def refer (location : Option Location) : Working Unit := modify (·.noteReference location)

/-- Asks a new resolver, which knows what is registered by now, and notes what it refers to. -/
def ask (question : Lookup → Resolving α) : Working α := do
  let here ← surroundings
  let (answer, resolver) := (question here.lookup).run .fresh
  resolver.references.forM (refer ∘ some)
  pure answer

/-- The type of a declaration. -/
def type (hint : Option String) (handle : TypeHandle) : Working ResolvedType := ask (handle.reduce · hint)

/-- The type of a field. -/
def memberType (hint : Option String) (handle : TypeHandle) : Working ResolvedType := ask (handle.reduceMember · hint)

/-- The signature of a callable type. -/
def signature (callable : Callable) : Working Encoding := ask callable.reduceSignature

/-- The type that an encoding stands for. -/
def encoded (encoding : String) : Working ResolvedType := pure (.ofEncoding encoding)

/-- Registers the block that work yields, if it yields one. -/
def collect (work : Working (Option Block)) : Working (Option Block) := do
  let block ← work
  block.forM fun block => modify (·.register (.block block))
  pure block

/-! ## Blocks -/

/-- The type a block returns; one that is not reported is void. -/
def blockReturn : Option TypeHandle → Working ResolvedType
  | none => pure .void
  | some result => type none result

mutual

/-- The block that a handle is under its sugar, if it is one.  The blocks inside it are registered, it itself is not. -/
def block? : TypeHandle → Working (Option Block)
  | { kind := .sugar _, canonical := some target, .. } => block? target
  | { kind := .blockPointer, spelling, pointee := none, .. } => do
    let here ← surroundings
    pure <| some
      { heading := ⟨spelling, .block, here.source, none⟩
        signature := spelling
        returns := .void
        arguments := []
        encoding := ['v', '@', '?'] }
  | { kind := .blockPointer, spelling, pointee := some function, .. } => do
    let block ← blockOf spelling function
    pure (some block)
  | _ => pure none

/-- The block with a spelling that calls a function under its sugar. -/
def blockOf (spelling : String) : TypeHandle → Working Block
  | { kind := .sugar _, canonical := some function, .. } => blockOf spelling function
  | function@{ result, arguments, variadic, .. } => do
    let here ← surroundings
    let returns ← blockReturn result
    let described ← blockArguments arguments
    let encoding ← signature ⟨.block, spelling, function⟩
    pure
      { heading := ⟨spelling, .block, here.source, none⟩
        signature := spelling
        returns
        arguments := described
        encoding
        variadic }

/-- What a block takes: arguments without names, each with the block it is, if it is one. -/
def blockArguments : List TypeHandle → Working (List Argument)
  | [] => pure []
  | argument :: rest => do
    let type ← type none argument
    let block ← collect (block? argument)
    let others ← blockArguments rest
    pure ({ name := "", type, block } :: others)

end

/-! ## Members, arguments and returned values -/

/-- The type of a declaration that may come without a handle, and the block it is, if it is one. -/
def declaredType (hint : Option String) : Option TypeHandle → Working (ResolvedType × Option Block)
  | none => do
    let type ← encoded (hint.getD "")
    pure (type, none)
  | some handle => do
    let type ← type hint handle
    let block ← collect (block? handle)
    pure (type, block)

/-- A parameter. -/
def argument (hint : Option String) (node : Node) : Working Argument := do
  let (type, block) ← declaredType hint node.type
  pure { name := node.name, type, block }

/-- The parameters among the children of a declaration, in order. -/
def arguments (hints : List String) (node : Node) : Working (List Argument) :=
  (node.childrenOf .parameter).zipIdx.mapM fun (parameter, i) => argument hints[i]? parameter

/-- A returned value with a handle. -/
def returned (hint : Option String) (handle : TypeHandle) : Working Returned := do
  let type ← type hint handle
  let block ← collect (block? handle)
  pure { type, block }

/-! ## Classes, categories and protocols -/

/-- What a method returns. -/
def methodReturn (hint : Option String) : Option TypeHandle → Working Returned
  | some handle => returned hint handle
  | none =>
    match hint with
    | some hint => do
      let type ← encoded hint
      pure { type }
    | none => pure .void

/-- A method. -/
def method (owner : String) (node : Node) : Working Method := do
  let encoding := node.encoding.getD ""
  let returns ← methodReturn ((Encoding.returned? encoding.toList).map String.ofList) node.resultType
  let arguments ← arguments ((Encoding.methodArguments encoding.toList).map String.ofList) node
  pure
    { selector := node.name
      owner
      ofInstance := node.kind = .instanceMethod
      optional := node.optional
      returns
      arguments
      encoding
      introduced := node.introduced? }

/-- A property. -/
def property (node : Node) : Working Property := do
  let (type, block) ← declaredType node.encoding node.type
  pure
    { name := node.name
      type
      attributes := node.attributes
      optional := node.optional
      block
      introduced := node.introduced? }

/-- An instance variable. -/
def ivar (node : Node) : Working Ivar := do
  let (type, block) ← declaredType node.encoding node.type
  pure { name := node.name, type, block }

/-- The entry with one more child of its declaration taken into account. -/
def withChild (entry : ClassEntry) (child : Node) : Working ClassEntry :=
  match child.kind with
  | .superclassRef => do
    refer child.referenced
    pure { entry with superclass := some child.name }
  | .protocolRef => do
    refer child.referenced
    pure (entry.adopt child.name)
  | kind => do
    let here ← surroundings
    if child.isAvailable here.settings.minVersion then
      match kind with
      | .instanceMethod | .classMethod => do
        let method ← method entry.heading.name child
        pure { entry with methods := entry.methods ++ [method] }
      | .property => do
        let property ← property child
        pure { entry with properties := entry.properties ++ [property] }
      | .ivar => do
        let ivar ← ivar child
        pure { entry with ivars := entry.ivars ++ [ivar] }
      | _ => pure entry
    else pure entry

/-- A class or protocol. -/
def withMembers (kind : ClassKind) (node : Node) : Working ClassEntry := do
  let heading ← enter kind.entryKind node.name node
  node.children.foldlM withChild { kind, heading }

/-- A category, under the name of its class; nothing if it does not say which class that is. -/
def category? (node : Node) : Working (Option ClassEntry) :=
  match Surroundings.extendedClass? node with
  | none => pure none
  | some extended => do
    refer extended.referenced
    let heading ← enter .extension extended.name node
    let entry ← node.children.foldlM withChild
      { kind := .extension, heading, categories := if node.name.isEmpty then [] else [node.name] }
    pure (some entry)

/-! ## The other declarations -/

/-- A field of a record. -/
def field (node : Node) : Working Field := do
  let type ← match node.type with
    | none => encoded (node.encoding.getD "")
    | some handle => memberType node.encoding handle
  pure { name := node.name, type }

/-- A struct or union. -/
def record (kind : RecordKind) (node : Node) : Working RecordEntry := do
  let heading ← enter (.record kind) node.name node
  let fields ← (node.childrenOf .field).mapM field
  pure (RecordEntry.encoded { heading, fields, encoding := [] })

/-- The integer type behind an enumeration. -/
def integerType (node : Node) : Working ResolvedType :=
  match node.type with
  | none => pure ⟨"int", "int", ['i']⟩
  | some handle => type node.encoding handle

/-- An enumeration with a name. -/
def enum (node : Node) : Working EnumEntry := do
  let heading ← enter .enum node.name node
  let type ← integerType node
  let here ← surroundings
  pure { heading, type, cases := Surroundings.numbered 0 (here.availableConstants node) }

/-- The constants of an enumeration without a name, each as a variable at its own place. -/
def anonymousConstants (node : Node) : Working (List GlobalEntry) := do
  let type ← integerType node
  let here ← surroundings
  (here.availableConstants node).mapM fun constant => do
    let heading ← enter .global constant.name constant
    pure { heading, type }

/-- A variable. -/
def global (node : Node) : Working GlobalEntry := do
  let heading ← enter .global node.name node
  let (type, _) ← declaredType node.encoding node.type
  pure { heading, type }

/-- A function. -/
def function (node : Node) : Working FunctionEntry := do
  let heading ← enter .function node.name node
  let proto := node.type.map (·.desugared)
  let returns ← match node.resultType.or (proto.bind (·.result)) with
    | some handle => returned none handle
    | none => pure .void
  let arguments ← arguments [] node
  pure { heading, returns, arguments, variadic := (proto.map (·.variadic)).getD false }

/-- A typedef. -/
def synonym (node : Node) : Working SynonymEntry := do
  let heading ← enter .synonym node.name node
  let (type, _) ← declaredType node.encoding node.type
  pure { heading, type }

end Working

/-! ## Building -/

/-- The ways to describe a declaration. -/
inductive DescriptionKind where
  | interface
  | protocol
  | category
  | record (kind : RecordKind)
  | enum
  /-- The constants of an enumeration without a name. -/
  | constants
  | global
  | function
  | synonym
  deriving DecidableEq, Repr

/-- What is made of a node described in one of the ways, and what is noted while it is made.  Nothing says that the node
is of the kind. -/
def Surroundings.build (here : Surroundings) (node : Node) : DescriptionKind → Noted (List Entry)
  | .interface => (fun entry => [.class_ entry]) <$> here.interface node
  | .protocol => (fun entry => [.class_ entry]) <$> here.protocol node
  | .category => (fun entry => (entry.map .class_).toList) <$> here.category? node
  | .record kind => (fun entry => [.record entry]) <$> here.record kind node
  | .enum => (fun entry => [.enum entry]) <$> here.enum node
  | .constants => (·.map .global) <$> here.anonymousConstants node
  | .global => (fun entry => [.global entry]) <$> here.global node
  | .function => (fun entry => [.function entry]) <$> here.function node
  | .synonym => (fun entry => [.synonym entry]) <$> here.synonym node

/-- What is made of a node described in one of the ways in place. -/
def Working.build (node : Node) : DescriptionKind → Working (List Entry)
  | .interface => (fun entry => [.class_ entry]) <$> withMembers .class_ node
  | .protocol => (fun entry => [.class_ entry]) <$> withMembers .protocol node
  | .category => (fun entry => (entry.map .class_).toList) <$> category? node
  | .record kind => (fun entry => [.record entry]) <$> record kind node
  | .enum => (fun entry => [.enum entry]) <$> enum node
  | .constants => (·.map .global) <$> anonymousConstants node
  | .global => (fun entry => [.global entry]) <$> global node
  | .function => (fun entry => [.function entry]) <$> function node
  | .synonym => (fun entry => [.synonym entry]) <$> synonym node

end HeaderCatalog
