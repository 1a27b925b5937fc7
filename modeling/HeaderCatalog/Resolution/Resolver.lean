import HeaderCatalog.Handle.Basic
import HeaderCatalog.Resolution.Lookup

set_option autoImplicit false

/-!
# Resolving types

Resolution reduces a handle to a type name and an encoding.  Scalars and object types have fixed encodings; pointers,
arrays, records and callables are put together from their parts; sugar stands for its canonical type under its own
spelling.  What cannot be reduced takes the encoding the front end reported for the declaration, the *hint*, or is
marked unknown.  Resolution is total.

A `Resolver` carries along what is needed on the way: the records that are open, so that a record inside itself is
written bare, and the declarations referred to so far.  A record is opened before its members are reduced and closed
behind them.  The types of a signature are at an outer place again, but the records around it stay open.
-/

namespace HeaderCatalog

/-- A hint that says something. -/
def usableHint? (hint : Option String) : Option String := hint.filter (Encoding.isUsable ·.toList)

/-- The type a usable hint stands for, under a spelling. -/
def ResolvedType.ofHint (hint value : String) : ResolvedType :=
  let erased := Encoding.erase hint.toList
  ⟨Encoding.typeName erased, value, erased⟩

/-- The name a record is encoded under; an unnamed one has a question mark. -/
def recordKeyOf (kind : RecordKind) (spelling : String) : RecordKey :=
  let name := Naming.ofRecord spelling
  ⟨kind, if Naming.isAnonymous name then "?" else name⟩

/-- The encoding of a function pointer with a signature. -/
def Encoding.functionPointerOf (signature : Encoding) : Encoding := '^' :: '?' :: '<' :: signature ++ ['>']

/-! ## Resolvers -/

/-- What a resolver carries along. -/
structure Resolver where
  /-- The records that are open. -/
  visiting : List RecordKey := []
  /-- The declarations referred to, in the order they were met. -/
  references : List Location := []
  deriving DecidableEq, Repr

namespace Resolver

/-- A resolver that has not been asked anything. -/
def fresh : Resolver := {}

/-- Notes where a type is declared, if that is known. -/
def note (declaration : Option Location) (resolver : Resolver) : Resolver :=
  { resolver with references := resolver.references ++ declaration.toList }

/-- Opens a record. -/
def enter (key : RecordKey) (resolver : Resolver) : Resolver := { resolver with visiting := key :: resolver.visiting }

/-- Closes a record. -/
def leave (key : RecordKey) (resolver : Resolver) : Resolver :=
  { resolver with visiting := resolver.visiting.erase key }

end Resolver

/-- A question to a resolver. -/
abbrev Resolving := StateM Resolver

/-- The encoding of a record at a place, opened for its members if the handle has fields. -/
def Lookup.reduceRecord (lookup : Lookup) (scope : Scope) (key : RecordKey)
    (members : Option (Resolving (List Encoding))) : Resolving Encoding := do
  let resolver ← get
  if scope.opensRecords && !resolver.visiting.contains key then
    match members with
    | none => pure (Encoding.record key.kind key.name (lookup.members? key.kind key.name))
    | some members => do
      modify (Resolver.enter key)
      let encodings ← members
      modify (Resolver.leave key)
      pure (Encoding.record key.kind key.name (some encodings))
  else pure (Encoding.record key.kind key.name none)

namespace TypeHandle

mutual

/-- The type of a handle at a place. -/
def reduceIn (lookup : Lookup) (scope : Scope) (hint : Option String) : TypeHandle → Resolving ResolvedType
  | { kind, spelling, pointee, canonical, fields, element, size, declaration, .. } => do
    modify (Resolver.note declaration)
    let word (name : String) : String := if spelling.isEmpty then name else spelling
    match kind with
    | .scalar s => pure ⟨s.typeName, word s.typeName, [s.code]⟩
    | .pointer =>
      match pointee with
      | none => reduceRest lookup scope hint spelling canonical
      | some target =>
        if target.desugared.kind.isChar then pure ⟨"pointer", spelling, ['*']⟩
        else if target.desugared.kind.isFunction then do
          let signature ← reduceSignature lookup .functionPointer target
          pure ⟨"function_callback", spelling, Encoding.functionPointerOf signature⟩
        else do
          let inner ← reduceIn lookup scope.behindPointer none target
          pure ⟨"pointer", spelling, '^' :: inner.encoding⟩
    | .blockPointer =>
      match pointee with
      | none => pure ⟨"block", spelling, Encoding.blockOf ['v', '@', '?']⟩
      | some function => do
        let signature ← reduceSignature lookup .block function
        pure ⟨"block", spelling, Encoding.blockOf signature⟩
    | .objcId => pure ⟨"id", word "id", ['@']⟩
    | .objcClass => pure ⟨"class", word "Class", ['#']⟩
    | .objcSelector => pure ⟨"SEL", word "SEL", [':']⟩
    | .objcObjectPointer => do
      modify (Resolver.note (pointee.bind (·.declaration)))
      pure ⟨"objc_pointer", Naming.withoutArguments spelling, ['@']⟩
    | .objcInterface | .objcObject => pure ⟨"obj_interface", Naming.withoutArguments spelling, ['@']⟩
    | .objcTypeParam => pure ⟨"id", Naming.withoutArguments spelling, ['@']⟩
    | .record kind => do
      let encoding ← lookup.reduceRecord scope (recordKeyOf kind spelling)
        (if fields.isEmpty then none else some (reduceMembers lookup fields))
      pure ⟨kind.keyword, spelling, encoding⟩
    | .enum =>
      match canonical with
      | none => pure ⟨"enum", spelling, ['i']⟩
      | some integer => do
        let integer ← reduceIn lookup scope none integer
        pure ⟨"enum", spelling, integer.encoding⟩
    | .sugar sugar =>
      match canonical with
      | some target =>
        match target.unnamedRecord? with
        | some kind => do
          -- an unnamed record takes the name it is given here
          let encoding ← reduceUnnamed lookup scope ⟨kind, Naming.ofRecord spelling⟩ target
          pure ⟨kind.keyword, spelling, encoding⟩
        | none => do
          let type ← reduceIn lookup scope hint target
          pure (type.withValue spelling)
      | none =>
        match sugar with
        | .synonym =>
          match lookup.synonym? (Naming.ofRecord spelling) with
          | some type => pure (type.withValue spelling)
          | none => reduceRest lookup scope hint spelling none
        | .elaborated =>
          match Naming.elaboratedRecord? spelling with
          | some kind => do
            let encoding ← lookup.reduceRecord scope (recordKeyOf kind spelling)
              (if fields.isEmpty then none else some (reduceMembers lookup fields))
            pure ⟨kind.keyword, spelling, encoding⟩
          | none => reduceRest lookup scope hint spelling none
        | .attributed => reduceRest lookup scope hint spelling none
    | .function _ => pure ⟨"function", spelling, Encoding.unknown⟩
    | .constantArray =>
      match element with
      | none => reduceRest lookup scope hint spelling canonical
      | some element => do
        let inner ← reduceIn lookup scope none element
        pure ⟨"constant_array", spelling, '[' :: (toString (size.getD 0).toNat).toList ++ inner.encoding ++ [']']⟩
    | .incompleteArray =>
      match element with
      | none => reduceRest lookup scope hint spelling canonical
      | some element => do
        let inner ← reduceIn lookup scope.behindPointer none element
        pure ⟨"incomplete_array", spelling, '^' :: inner.encoding⟩
    | .vector | .unexposed | .dependent | .invalid | .other _ => reduceRest lookup scope hint spelling canonical

/-- The type of a handle that its kind does not determine: the hint decides, else the plain form, else nothing. -/
def reduceRest (lookup : Lookup) (scope : Scope) (hint : Option String) (spelling : String) :
    Option TypeHandle → Resolving ResolvedType
  | none =>
    match usableHint? hint with
    | some hint => pure (.ofHint hint (Naming.withoutArguments spelling))
    | none => pure (.unknown (Naming.withoutArguments spelling))
  | some canonical =>
    match usableHint? hint with
    | some hint => pure (.ofHint hint (Naming.withoutArguments spelling))
    | none => do
      let type ← reduceIn lookup scope none canonical
      pure (type.withValue (Naming.withoutArguments spelling))

/-- The encoding of an unnamed record under the name in `key`, with the fields that the handle itself carries. -/
def reduceUnnamed (lookup : Lookup) (scope : Scope) (key : RecordKey) : TypeHandle → Resolving Encoding
  | { fields, .. } =>
    lookup.reduceRecord scope key (if fields.isEmpty then none else some (reduceMembers lookup fields))

/-- The signature of a call to a function under its sugar: what it returns, the mark of a block, what it takes. -/
def reduceSignature (lookup : Lookup) (callable : CallableKind) : TypeHandle → Resolving Encoding
  | { kind := .sugar _, canonical := some function, .. } => reduceSignature lookup callable function
  | { result, arguments, .. } => do
    let returned ← reduceReturned lookup result
    let taken ← reduceArguments lookup arguments
    pure (returned ++ (if callable = .block then ['@', '?'] else []) ++ taken)

/-- The erased encoding of what a call returns. -/
def reduceReturned (lookup : Lookup) : Option TypeHandle → Resolving Encoding
  | none => pure ['v']
  | some result => do
    let type ← reduceIn lookup .outer none result
    pure (Encoding.erase type.encoding)

/-- The erased encodings of what a call takes, one after the other. -/
def reduceArguments (lookup : Lookup) : List TypeHandle → Resolving Encoding
  | [] => pure []
  | argument :: rest => do
    let type ← reduceIn lookup .outer none argument
    let others ← reduceArguments lookup rest
    pure (Encoding.erase type.encoding ++ others)

/-- The encodings of the fields of a record, in order. -/
def reduceMembers (lookup : Lookup) : List FieldHandle → Resolving (List Encoding)
  | [] => pure []
  | { type, .. } :: rest => do
    let type ← reduceIn lookup .field none type
    let others ← reduceMembers lookup rest
    pure (type.encoding :: others)

end

/-- The type of a declaration with this handle. -/
def reduce (lookup : Lookup) (hint : Option String) (handle : TypeHandle) : Resolving ResolvedType :=
  handle.reduceIn lookup .outer hint

/-- The type of a field with this handle. -/
def reduceMember (lookup : Lookup) (hint : Option String) (handle : TypeHandle) : Resolving ResolvedType :=
  handle.reduceIn lookup .field hint

end TypeHandle

/-- The signature of a callable type, without the brackets around it. -/
def Callable.reduceSignature (lookup : Lookup) (callable : Callable) : Resolving Encoding := do
  let returned ← TypeHandle.reduceReturned lookup callable.result
  let taken ← TypeHandle.reduceArguments lookup callable.arguments
  pure (returned ++ (if callable.kind = .block then ['@', '?'] else []) ++ taken)

/-! ## Single questions -/

/-- What a resolver answers that has not been asked anything before. -/
def Resolving.answer {α : Type} (question : Resolving α) : α := (question.run .fresh).1

/-- The declarations that such a resolver refers to. -/
def Resolving.references {α : Type} (question : Resolving α) : List Location := (question.run .fresh).2.references

/-- The type of a declaration with this handle. -/
def TypeHandle.resolve (lookup : Lookup) (hint : Option String) (handle : TypeHandle) : ResolvedType :=
  (handle.reduce lookup hint).answer

/-- The type of a field with this handle. -/
def TypeHandle.resolveMember (lookup : Lookup) (hint : Option String) (handle : TypeHandle) : ResolvedType :=
  (handle.reduceMember lookup hint).answer

/-- The signature of a callable type. -/
def Callable.signature (lookup : Lookup) (callable : Callable) : Encoding :=
  (callable.reduceSignature lookup).answer

/-- The declarations that a declaration with this handle refers to.  They do not depend on what is known. -/
def TypeHandle.references (hint : Option String) (handle : TypeHandle) : List Location :=
  (handle.reduce .empty hint).references

/-- The declarations that a field with this handle refers to. -/
def TypeHandle.memberTypeReferences (hint : Option String) (handle : TypeHandle) : List Location :=
  (handle.reduceMember .empty hint).references

/-- The declarations that the signature of a callable type refers to. -/
def Callable.signatureReferences (callable : Callable) : List Location :=
  (callable.reduceSignature .empty).references

end HeaderCatalog
