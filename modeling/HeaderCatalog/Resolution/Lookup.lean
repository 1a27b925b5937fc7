import HeaderCatalog.Encoding.Record
import HeaderCatalog.ResolvedType

set_option autoImplicit false

/-!
# What is already known

A handle may name a record or a typedef without saying what it is.  Resolution then asks a `Lookup`: what earlier
declarations said about that name.  `Scope` and `RecordKey` are the two bounds on how far records are opened: how many
pointers away they stand, and which records are open already.
-/

namespace HeaderCatalog

/-- What is known of named records and typedefs. -/
structure Lookup where
  /-- The encodings of the members of a record, in order. -/
  members? : RecordKind → String → Option (List Encoding)
  /-- The type behind a typedef. -/
  synonym? : String → Option ResolvedType

/-- The lookup that knows nothing. -/
def Lookup.empty : Lookup := ⟨fun _ _ => none, fun _ => none⟩

instance : Inhabited Lookup := ⟨Lookup.empty⟩

/-- A record, as far as resolution tells records apart. -/
structure RecordKey where
  kind : RecordKind
  name : String
  deriving DecidableEq, Repr

/-- Where a type stands: behind how many pointers, as far as they are counted, and whether inside a record. -/
structure Scope where
  depth : Nat := 0
  inRecord : Bool := false
  deriving DecidableEq, Repr

namespace Scope

/-- The place of a declared type. -/
def outer : Scope := {}

/-- The place of a field. -/
def field : Scope := { inRecord := true }

/-- The pointers that are counted; all further ones are taken for the last of them. -/
def maxDepth : Nat := 255

/-- The place one pointer further on. -/
def behindPointer (scope : Scope) : Scope := { scope with depth := min (scope.depth + 1) maxDepth }

/-- Whether a record standing here is written with its members: itself, or behind one pointer that is no field. -/
def opensRecords (scope : Scope) : Bool := scope.depth == 0 || (scope.depth == 1 && !scope.inRecord)

end Scope

end HeaderCatalog
