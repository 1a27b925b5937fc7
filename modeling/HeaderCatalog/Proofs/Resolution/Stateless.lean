import HeaderCatalog.Resolution.Resolver

set_option autoImplicit false

/-!
# Resolution without state

What a resolver answers and what it refers to, as two functions of the handle.  The records that are open, `visiting`,
are an argument, so a record that contains itself is written bare inside itself and in full elsewhere.  The references
depend on the handle and on the hint, never on what is already known: no lookup appears in `referencesIn`.
-/

namespace HeaderCatalog

/-- The encoding of a record at a place.  It is bare where records are not opened and where this record is open
already.  Otherwise its members come from the handle, if the handle has fields, or from what is known. -/
def Lookup.recordEncoding (lookup : Lookup) (visiting : List RecordKey) (scope : Scope) (key : RecordKey)
    (members : Option (List RecordKey → List Encoding)) : Encoding :=
  if scope.opensRecords && !visiting.contains key then
    match members with
    | some members => Encoding.record key.kind key.name (some (members (key :: visiting)))
    | none => Encoding.record key.kind key.name (lookup.members? key.kind key.name)
  else Encoding.record key.kind key.name none

/-- What opening a record contributes: the places its members contribute while it is open. -/
def openedReferences (visiting : List RecordKey) (scope : Scope) (key : RecordKey)
    (members : List RecordKey → List Location) : List Location :=
  if scope.opensRecords && !visiting.contains key then members (key :: visiting) else []

namespace TypeHandle

mutual

/-- The type of a handle at a place, with the records in `visiting` open. -/
def resolveIn (lookup : Lookup) (visiting : List RecordKey) (scope : Scope) (hint : Option String) :
    TypeHandle → ResolvedType
  | { kind, spelling, pointee, canonical, fields, element, size, .. } =>
    let word (name : String) : String := if spelling.isEmpty then name else spelling
    match kind with
    | .scalar s => ⟨s.typeName, word s.typeName, [s.code]⟩
    | .pointer =>
      match pointee with
      | none => resolveRest lookup visiting scope hint spelling canonical
      | some target =>
        if target.desugared.kind.isChar then ⟨"pointer", spelling, ['*']⟩
        else if target.desugared.kind.isFunction then
          ⟨"function_callback", spelling,
            Encoding.functionPointerOf (signatureIn lookup visiting .functionPointer target)⟩
        else ⟨"pointer", spelling, '^' :: (resolveIn lookup visiting scope.behindPointer none target).encoding⟩
    | .blockPointer =>
      match pointee with
      | none => ⟨"block", spelling, Encoding.blockOf ['v', '@', '?']⟩
      | some function => ⟨"block", spelling, Encoding.blockOf (signatureIn lookup visiting .block function)⟩
    | .objcId => ⟨"id", word "id", ['@']⟩
    | .objcClass => ⟨"class", word "Class", ['#']⟩
    | .objcSelector => ⟨"SEL", word "SEL", [':']⟩
    | .objcObjectPointer => ⟨"objc_pointer", Naming.withoutArguments spelling, ['@']⟩
    | .objcInterface | .objcObject => ⟨"obj_interface", Naming.withoutArguments spelling, ['@']⟩
    | .objcTypeParam => ⟨"id", Naming.withoutArguments spelling, ['@']⟩
    | .record kind =>
      ⟨kind.keyword, spelling,
        lookup.recordEncoding visiting scope (recordKeyOf kind spelling)
          (if fields.isEmpty then none else some fun visiting => memberEncodings lookup visiting fields)⟩
    | .enum =>
      match canonical with
      | none => ⟨"enum", spelling, ['i']⟩
      | some integer => ⟨"enum", spelling, (resolveIn lookup visiting scope none integer).encoding⟩
    | .sugar sugar =>
      match canonical with
      | some target =>
        match target.unnamedRecord? with
        | some kind =>
          -- an unnamed record takes the name it is given here
          ⟨kind.keyword, spelling, recordIn lookup visiting scope ⟨kind, Naming.ofRecord spelling⟩ target⟩
        | none => (resolveIn lookup visiting scope hint target).withValue spelling
      | none =>
        match sugar with
        | .synonym =>
          match lookup.synonym? (Naming.ofRecord spelling) with
          | some type => type.withValue spelling
          | none => resolveRest lookup visiting scope hint spelling none
        | .elaborated =>
          match Naming.elaboratedRecord? spelling with
          | some kind =>
            ⟨kind.keyword, spelling,
              lookup.recordEncoding visiting scope (recordKeyOf kind spelling)
                (if fields.isEmpty then none else some fun visiting => memberEncodings lookup visiting fields)⟩
          | none => resolveRest lookup visiting scope hint spelling none
        | .attributed => resolveRest lookup visiting scope hint spelling none
    | .function _ => ⟨"function", spelling, Encoding.unknown⟩
    | .constantArray =>
      match element with
      | none => resolveRest lookup visiting scope hint spelling canonical
      | some element =>
        ⟨"constant_array", spelling,
          '[' :: (toString (size.getD 0).toNat).toList ++
            (resolveIn lookup visiting scope none element).encoding ++ [']']⟩
    | .incompleteArray =>
      match element with
      | none => resolveRest lookup visiting scope hint spelling canonical
      | some element =>
        ⟨"incomplete_array", spelling, '^' :: (resolveIn lookup visiting scope.behindPointer none element).encoding⟩
    | .vector | .unexposed | .dependent | .invalid | .other _ =>
      resolveRest lookup visiting scope hint spelling canonical

/-- The type of a handle that its kind does not determine: the hint decides, else the plain form, else nothing. -/
def resolveRest (lookup : Lookup) (visiting : List RecordKey) (scope : Scope) (hint : Option String)
    (spelling : String) : Option TypeHandle → ResolvedType
  | none =>
    match usableHint? hint with
    | some hint => .ofHint hint (Naming.withoutArguments spelling)
    | none => .unknown (Naming.withoutArguments spelling)
  | some canonical =>
    match usableHint? hint with
    | some hint => .ofHint hint (Naming.withoutArguments spelling)
    | none => (resolveIn lookup visiting scope none canonical).withValue (Naming.withoutArguments spelling)

/-- The encoding of an unnamed record under the name in `key`, with the fields that the handle itself carries. -/
def recordIn (lookup : Lookup) (visiting : List RecordKey) (scope : Scope) (key : RecordKey) : TypeHandle → Encoding
  | { fields, .. } =>
    lookup.recordEncoding visiting scope key
      (if fields.isEmpty then none else some fun visiting => memberEncodings lookup visiting fields)

/-- The signature of a call to a function under its sugar: what it returns, the mark of a block, what it takes. -/
def signatureIn (lookup : Lookup) (visiting : List RecordKey) (callable : CallableKind) : TypeHandle → Encoding
  | { kind := .sugar _, canonical := some function, .. } => signatureIn lookup visiting callable function
  | { result, arguments, .. } =>
    returnedEncoding lookup visiting result ++ (if callable = .block then ['@', '?'] else []) ++
      argumentEncodings lookup visiting arguments

/-- The erased encoding of what a call returns. -/
def returnedEncoding (lookup : Lookup) (visiting : List RecordKey) : Option TypeHandle → Encoding
  | none => ['v']
  | some result => Encoding.erase (resolveIn lookup visiting .outer none result).encoding

/-- The erased encodings of what a call takes, one after the other. -/
def argumentEncodings (lookup : Lookup) (visiting : List RecordKey) : List TypeHandle → Encoding
  | [] => []
  | argument :: rest =>
    Encoding.erase (resolveIn lookup visiting .outer none argument).encoding ++ argumentEncodings lookup visiting rest

/-- The encodings of the fields of a record, in order. -/
def memberEncodings (lookup : Lookup) (visiting : List RecordKey) : List FieldHandle → List Encoding
  | [] => []
  | { type, .. } :: rest =>
    (resolveIn lookup visiting .field none type).encoding :: memberEncodings lookup visiting rest

end

mutual

/-- The places met while resolving a handle at a place, in the order they are met. -/
def referencesIn (visiting : List RecordKey) (scope : Scope) (hint : Option String) : TypeHandle → List Location
  | { kind, spelling, pointee, canonical, fields, element, declaration, .. } =>
    declaration.toList ++
    match kind with
    | .pointer =>
      match pointee with
      | none => referencesRest visiting scope hint canonical
      | some target =>
        if target.desugared.kind.isChar then []
        else if target.desugared.kind.isFunction then signatureReferencesIn visiting target
        else referencesIn visiting scope.behindPointer none target
    | .blockPointer =>
      match pointee with
      | none => []
      | some function => signatureReferencesIn visiting function
    | .objcObjectPointer => (pointee.bind (·.declaration)).toList
    | .record kind =>
      openedReferences visiting scope (recordKeyOf kind spelling) fun visiting => memberReferences visiting fields
    | .enum =>
      match canonical with
      | none => []
      | some integer => referencesIn visiting scope none integer
    | .sugar sugar =>
      match canonical with
      | some target =>
        match target.unnamedRecord? with
        | some kind => recordReferencesIn visiting scope ⟨kind, Naming.ofRecord spelling⟩ target
        | none => referencesIn visiting scope hint target
      | none =>
        match sugar with
        | .elaborated =>
          match Naming.elaboratedRecord? spelling with
          | some kind =>
            openedReferences visiting scope (recordKeyOf kind spelling) fun visiting => memberReferences visiting fields
          | none => []
        | .synonym | .attributed => []
    | .constantArray =>
      match element with
      | none => referencesRest visiting scope hint canonical
      | some element => referencesIn visiting scope none element
    | .incompleteArray =>
      match element with
      | none => referencesRest visiting scope hint canonical
      | some element => referencesIn visiting scope.behindPointer none element
    | .vector | .unexposed | .dependent | .invalid | .other _ => referencesRest visiting scope hint canonical
    | .scalar _ | .objcId | .objcClass | .objcSelector | .objcInterface | .objcObject | .objcTypeParam
    | .function _ => []

/-- The places met in the plain form of a type, which is looked at only where no hint decides. -/
def referencesRest (visiting : List RecordKey) (scope : Scope) (hint : Option String) :
    Option TypeHandle → List Location
  | none => []
  | some canonical => if (usableHint? hint).isSome then [] else referencesIn visiting scope none canonical

/-- The places met in the fields that a handle itself carries. -/
def recordReferencesIn (visiting : List RecordKey) (scope : Scope) (key : RecordKey) : TypeHandle → List Location
  | { fields, .. } => openedReferences visiting scope key fun visiting => memberReferences visiting fields

/-- The places met in the signature of a function under its sugar. -/
def signatureReferencesIn (visiting : List RecordKey) : TypeHandle → List Location
  | { kind := .sugar _, canonical := some function, .. } => signatureReferencesIn visiting function
  | { result, arguments, .. } => returnedReferences visiting result ++ argumentReferences visiting arguments

/-- The places met in what a call returns. -/
def returnedReferences (visiting : List RecordKey) : Option TypeHandle → List Location
  | none => []
  | some result => referencesIn visiting .outer none result

/-- The places met in what a call takes. -/
def argumentReferences (visiting : List RecordKey) : List TypeHandle → List Location
  | [] => []
  | argument :: rest => referencesIn visiting .outer none argument ++ argumentReferences visiting rest

/-- The places met in the fields of a record. -/
def memberReferences (visiting : List RecordKey) : List FieldHandle → List Location
  | [] => []
  | { type, .. } :: rest => referencesIn visiting .field none type ++ memberReferences visiting rest

end

end TypeHandle

end HeaderCatalog
