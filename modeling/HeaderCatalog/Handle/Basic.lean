import HeaderCatalog.Handle.Kind
import HeaderCatalog.Location
import HeaderCatalog.Naming

set_option autoImplicit false

/-!
# Type handles

A handle is what a front end reports about one type: its kind, its spelling, and the handles of the types it is made
of.  Which parts a handle carries depends on its kind, but nothing obliges the front end to fill them in, so every part
may be missing.
-/

namespace HeaderCatalog

mutual

/-- A reported type. -/
structure TypeHandle where
  kind : TypeKind
  spelling : String := ""
  /-- What a pointer or block pointer points to. -/
  pointee : Option TypeHandle := none
  /-- The type that sugar stands for, the integer type of an enumeration, or the plain form of an unexposed type. -/
  canonical : Option TypeHandle := none
  /-- What a function returns. -/
  result : Option TypeHandle := none
  /-- What a function takes. -/
  arguments : List TypeHandle := []
  /-- The fields of a record, where the front end looked into it. -/
  fields : List FieldHandle := []
  /-- What an array holds. -/
  element : Option TypeHandle := none
  /-- The length of an array. -/
  size : Option UInt64 := none
  variadic : Bool := false
  /-- Where the named type is declared. -/
  declaration : Option Location := none

/-- A field of a reported record. -/
structure FieldHandle where
  name : String
  type : TypeHandle

end

namespace TypeHandle

instance : Inhabited TypeHandle := ⟨{ kind := default }⟩

/-- The type under all sugar: the first handle on the way that is not sugar, or that stands for nothing. -/
def desugared : TypeHandle → TypeHandle
  | { kind := .sugar _, canonical := some canonical, .. } => canonical.desugared
  | handle => handle

/-- The kind of record a handle is under its sugar, if the record has no name. -/
def unnamedRecord? (handle : TypeHandle) : Option RecordKind :=
  match handle.desugared.kind with
  | .record kind => if Naming.isAnonymous (Naming.ofRecord handle.desugared.spelling) then some kind else none
  | _ => none

end TypeHandle

/-! ## Callable types -/

/-- The two types that can be called through a pointer. -/
inductive CallableKind where
  | block
  | functionPointer
  deriving DecidableEq, Repr, Inhabited

/-- The word for a kind of callable. -/
def CallableKind.word : CallableKind → String
  | block => "block"
  | functionPointer => "function_pointer"

/-- A callable type under its sugar. -/
structure Callable where
  kind : CallableKind
  /-- The spelling of the type under its sugar. -/
  spelling : String
  /-- The function that is called, under its sugar; a block may be reported without it. -/
  function : Option TypeHandle

namespace Callable

/-- What a call returns, where that is reported. -/
def result (callable : Callable) : Option TypeHandle := callable.function.bind (·.result)

/-- What a call takes. -/
def arguments (callable : Callable) : List TypeHandle := (callable.function.map (·.arguments)).getD []

/-- Whether a call takes further arguments. -/
def variadic (callable : Callable) : Bool := (callable.function.map (·.variadic)).getD false

end Callable

/-- The callable type that a handle is under its sugar: a block pointer, or a pointer to a function. -/
def TypeHandle.callable? (handle : TypeHandle) : Option Callable :=
  let target := handle.desugared
  let function := target.pointee.map desugared
  match target.kind, function with
  | .blockPointer, _ => some ⟨.block, target.spelling, function⟩
  | .pointer, some pointee =>
    if pointee.kind.isFunction then some ⟨.functionPointer, target.spelling, function⟩ else none
  | _, _ => none

end HeaderCatalog
