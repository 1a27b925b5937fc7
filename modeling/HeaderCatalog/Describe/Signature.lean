import HeaderCatalog.Describe.Noted
import HeaderCatalog.Node.Basic
import HeaderCatalog.Resolution.Resolver
import HeaderCatalog.Settings.Basic

set_option autoImplicit false

/-!
# Describing types, blocks and arguments

Every description is made in given surroundings: the settings of the run, what is already known of named types, and
the place of the declaration being described.  A block belongs to the declaration it is met in, so it stands at that
place.
-/

namespace HeaderCatalog

/-- Where a description is made. -/
structure Surroundings where
  settings : Settings
  lookup : Lookup
  /-- The place of the declaration being described. -/
  source : Source

/-- What a new resolver answers, with the declarations it refers to. -/
def Noted.ofResolving {α : Type} (question : Resolving α) : Noted α :=
  let (value, resolver) := question.run .fresh
  { value, references := resolver.references }

@[simp] theorem Noted.value_ofResolving {α : Type} (question : Resolving α) :
    (Noted.ofResolving question).value = question.answer := rfl

@[simp] theorem Noted.references_ofResolving {α : Type} (question : Resolving α) :
    (Noted.ofResolving question).references = question.references := rfl

@[simp] theorem Noted.blocks_ofResolving {α : Type} (question : Resolving α) :
    (Noted.ofResolving question).blocks = [] := rfl

namespace Surroundings

/-- Goes to a declaration. -/
def enter (here : Surroundings) (node : Node) : Noted Surroundings :=
  let source := here.settings.classify node.location
  { value := { here with source }, located := some source }

/-- The heading of a declaration that has been entered. -/
def heading (here : Surroundings) (kind : EntryKind) (name : String) (node : Node) : Heading :=
  ⟨name, kind, here.source, node.introduced?⟩

/-- The type of a declaration. -/
def type (here : Surroundings) (hint : Option String) (handle : TypeHandle) : Noted ResolvedType :=
  .ofResolving (handle.reduce here.lookup hint)

/-- The type of a field. -/
def memberType (here : Surroundings) (hint : Option String) (handle : TypeHandle) : Noted ResolvedType :=
  .ofResolving (handle.reduceMember here.lookup hint)

/-- The signature of a callable type. -/
def signature (here : Surroundings) (callable : Callable) : Noted Encoding :=
  .ofResolving (callable.reduceSignature here.lookup)

/-! ## Blocks -/

/-- The type a block returns; one that is not reported is void. -/
def blockReturn (here : Surroundings) : Option TypeHandle → Noted ResolvedType
  | none => pure .void
  | some result => here.type none result

mutual

/-- The block that a handle is under its sugar, if it is one.  The blocks inside it are noted, it itself is not. -/
def block? (here : Surroundings) : TypeHandle → Noted (Option Block)
  | { kind := .sugar _, canonical := some target, .. } => block? here target
  | { kind := .blockPointer, spelling, pointee := none, .. } =>
    pure <| some
      { heading := ⟨spelling, .block, here.source, none⟩
        signature := spelling
        returns := .void
        arguments := []
        encoding := ['v', '@', '?'] }
  | { kind := .blockPointer, spelling, pointee := some function, .. } => do
    let block ← blockOf here spelling function
    pure (some block)
  | _ => pure none

/-- The block with a spelling that calls a function under its sugar. -/
def blockOf (here : Surroundings) (spelling : String) : TypeHandle → Noted Block
  | { kind := .sugar _, canonical := some function, .. } => blockOf here spelling function
  | function@{ result, arguments, variadic, .. } => do
    let returns ← here.blockReturn result
    let described ← blockArguments here arguments
    let encoding ← here.signature ⟨.block, spelling, function⟩
    pure
      { heading := ⟨spelling, .block, here.source, none⟩
        signature := spelling
        returns
        arguments := described
        encoding
        variadic }

/-- What a block takes: arguments without names, each with the block it is, if it is one. -/
def blockArguments (here : Surroundings) : List TypeHandle → Noted (List Argument)
  | [] => pure []
  | argument :: rest => do
    let type ← here.type none argument
    let block ← (block? here argument).collect
    let others ← blockArguments here rest
    pure ({ name := "", type, block } :: others)

end

/-- The block that a handle is under its sugar, noted. -/
def collectBlock? (here : Surroundings) (handle : TypeHandle) : Noted (Option Block) := (here.block? handle).collect

/-! ## Members, arguments and returned values -/

/-- The type of a declaration that may come without a handle, and the block it is, if it is one.  Without a handle the
reported encoding is all there is. -/
def declaredType (here : Surroundings) (hint : Option String) (handle : Option TypeHandle) :
    Noted (ResolvedType × Option Block) :=
  match handle with
  | none => pure (.ofEncoding (hint.getD ""), none)
  | some handle => do
    let type ← here.type hint handle
    let block ← here.collectBlock? handle
    pure (type, block)

/-- A parameter; the hint is its part of the encoding of the method. -/
def argument (here : Surroundings) (hint : Option String) (node : Node) : Noted Argument := do
  let (type, block) ← here.declaredType hint node.type
  pure { name := node.name, type, block }

/-- The parameters among the children of a declaration, in order, the first with the first hint and so on. -/
def arguments (here : Surroundings) (hints : List String) (node : Node) : Noted (List Argument) :=
  (node.childrenOf .parameter).zipIdx.mapM fun (parameter, i) => here.argument hints[i]? parameter

/-- A returned value with a handle. -/
def returned (here : Surroundings) (hint : Option String) (handle : TypeHandle) : Noted Returned := do
  let type ← here.type hint handle
  let block ← here.collectBlock? handle
  pure { type, block }

end Surroundings

end HeaderCatalog
