import HeaderCatalog.Entry.Kind
import HeaderCatalog.Location
import HeaderCatalog.ResolvedType

set_option autoImplicit false

/-!
# Blocks and arguments

A block type met in a declaration is described under its spelling: what it returns, what it takes, and its signature.
An argument that is itself a block carries the description of that block, so the two structures contain each other.
-/

namespace HeaderCatalog

/-- What every entry has: a name, a kind, a place, and the version that introduced it. -/
structure Heading where
  name : String
  kind : EntryKind
  source : Source
  introduced : Option String := none
  deriving DecidableEq, Repr, Inhabited

/-- Whether an entry does not come with the SDK. -/
def Heading.isThirdParty (heading : Heading) : Bool := !heading.source.isSystem

mutual

/-- A block type. -/
structure Block where
  heading : Heading
  /-- The spelling of the type. -/
  signature : String
  returns : ResolvedType
  arguments : List Argument
  /-- The encoding of the signature, without the brackets around it. -/
  encoding : Encoding
  variadic : Bool := false

/-- What a method, function or block takes. -/
structure Argument where
  /-- The name of the parameter; those of blocks have none. -/
  name : String
  type : ResolvedType
  block : Option Block := none

end

namespace Block

/-- The framework a block is kept under: that of the declaration it was met in. -/
def framework (block : Block) : String := block.heading.source.framework

instance : Inhabited Block := ⟨⟨default, default, default, [], [], false⟩⟩

end Block

/-- What a method or function returns. -/
structure Returned where
  type : ResolvedType
  block : Option Block := none
  deriving Inhabited

/-- What a call without a value returns. -/
def Returned.void : Returned := { type := .void }

end HeaderCatalog
