import HeaderCatalog.Proofs.Resolution.Resolver

set_option autoImplicit false

/-!
# Outlines of types

The outline of a handle is what is left of it when sugar is looked through, hints are taken and names are looked up:
pointers, arrays, calls, and records under the names they are written with.  It does not say where the type stands.
That comes in when an outline is placed: `placedIn` makes records bare where they stand too deep, and where they stand
inside a record that is open already.  A placed outline is written as it stands (`encoding`).

Resolution takes the three steps at once (`encoding_resolveIn`).  What holds of the encodings of all handles can
therefore be shown by induction on six kinds of outline.
-/

namespace HeaderCatalog

/-! ## Watching the open records -/

/-- The records that are open, or `none` where no account of them is kept. -/
abbrev Watch := Option (List RecordKey)

namespace Watch

/-- Whether a record is written with its members: its place allows it, and it is not known to be open already. -/
def admits (watch : Watch) (scope : Scope) (key : RecordKey) : Bool :=
  scope.opensRecords && !watch.any (·.contains key)

/-- The watch inside a record. -/
def enter (key : RecordKey) (watch : Watch) : Watch := watch.map (key :: ·)

@[simp] theorem admits_none (scope : Scope) (key : RecordKey) :
    admits none scope key = scope.opensRecords := by
  simp [admits]

@[simp] theorem admits_some (visiting : List RecordKey) (scope : Scope) (key : RecordKey) :
    admits (some visiting) scope key = (scope.opensRecords && !visiting.contains key) := rfl

@[simp] theorem enter_none (key : RecordKey) : enter key none = none := rfl

@[simp] theorem enter_some (key : RecordKey) (visiting : List RecordKey) :
    enter key (some visiting) = some (key :: visiting) := rfl

end Watch

/-- The mark between what a block returns and what it takes. -/
def CallableKind.mark (callable : CallableKind) : Encoding := if callable = .block then ['@', '?'] else []

/-- The encoding of a callable type with a signature. -/
def CallableKind.around : CallableKind → Encoding → Encoding
  | block => Encoding.blockOf
  | functionPointer => Encoding.functionPointerOf

/-! ## Outlines -/

/-- A type without sugar. -/
inductive Outline where
  /-- A type whose encoding is the same everywhere. -/
  | plain (encoding : Encoding)
  | pointer (target : Outline)
  | array (length : Nat) (element : Outline)
  /-- A record with the fields that its handle carries. -/
  | record (key : RecordKey) (fields : List Outline)
  /-- A record whose handle carries no fields, with what is known of its members. -/
  | known (key : RecordKey) (members : Option (List Encoding))
  | call (callable : CallableKind) (returned : Outline) (taken : List Outline)

namespace Outline

mutual

/-- The outline with the records that a place does not admit made bare. -/
def placedIn (watch : Watch) (scope : Scope) : Outline → Outline
  | plain encoding => plain encoding
  | pointer target => pointer (placedIn watch scope.behindPointer target)
  | array length element => array length (placedIn watch scope element)
  | record key fields =>
    if watch.admits scope key then record key (allPlacedIn (watch.enter key) .field fields) else known key none
  | known key members => known key (if watch.admits scope key then members else none)
  | call callable returned taken =>
    call callable (placedIn watch .outer returned) (allPlacedIn watch .outer taken)

/-- Outlines at one place. -/
def allPlacedIn (watch : Watch) (scope : Scope) : List Outline → List Outline
  | [] => []
  | outline :: rest => placedIn watch scope outline :: allPlacedIn watch scope rest

end

mutual

/-- The encoding of an outline as it stands. -/
def encoding : Outline → Encoding
  | plain encoding => encoding
  | pointer target => '^' :: encoding target
  | array length element => '[' :: (toString length).toList ++ encoding element ++ [']']
  | record key fields => Encoding.record key.kind key.name (some (encodings fields))
  | known key members => Encoding.record key.kind key.name members
  | call callable returned taken =>
    callable.around (Encoding.erase (encoding returned) ++ callable.mark ++ (encodings taken).flatMap Encoding.erase)

/-- The encodings of outlines. -/
def encodings : List Outline → List Encoding
  | [] => []
  | outline :: rest => encoding outline :: encodings rest

end

/-- The outline of a record: what its handle says of the fields goes before what is known of them. -/
def ofRecord (lookup : Lookup) (key : RecordKey) : List Outline → Outline
  | [] => known key (lookup.members? key.kind key.name)
  | first :: rest => record key (first :: rest)

mutual

/-- Every record of an outline, at any depth, with the fields that its handle carries. -/
def records : Outline → List (RecordKey × List Outline)
  | plain _ => []
  | pointer target => records target
  | array _ element => records element
  | record key fields => (key, fields) :: allRecords fields
  | known key _ => [(key, [])]
  | call _ returned taken => records returned ++ allRecords taken

/-- The records of outlines. -/
def allRecords : List Outline → List (RecordKey × List Outline)
  | [] => []
  | outline :: rest => records outline ++ allRecords rest

end

/-- The keys of the records of an outline. -/
def keys (outline : Outline) : List RecordKey := outline.records.map (·.1)

/-- What is returned where nothing is reported. -/
def void : Outline := plain ['v']

theorem mem_allRecords {outlines : List Outline} {pair : RecordKey × List Outline} :
    pair ∈ allRecords outlines ↔ ∃ outline ∈ outlines, pair ∈ outline.records := by
  induction outlines with
  | nil => simp [allRecords]
  | cons outline rest ih => simp [allRecords, ih]

theorem records_ofRecord (lookup : Lookup) (key : RecordKey) (fields : List Outline) :
    (ofRecord lookup key fields).records = (key, fields) :: allRecords fields := by
  cases fields <;> rfl

end Outline

namespace TypeHandle

mutual

/-- The outline of a handle. -/
def outline (lookup : Lookup) (hint : Option String) : TypeHandle → Outline
  | { kind, spelling, pointee, canonical, fields, element, size, .. } =>
    match kind with
    | .scalar s => .plain [s.code]
    | .pointer =>
      match pointee with
      | none => outlineRest lookup hint canonical
      | some target =>
        if target.desugared.kind.isChar then .plain ['*']
        else if target.desugared.kind.isFunction then signatureOutline lookup .functionPointer target
        else .pointer (outline lookup none target)
    | .blockPointer =>
      match pointee with
      | none => .call .block .void []
      | some function => signatureOutline lookup .block function
    | .objcId | .objcObjectPointer | .objcInterface | .objcObject | .objcTypeParam => .plain ['@']
    | .objcClass => .plain ['#']
    | .objcSelector => .plain [':']
    | .record kind => .ofRecord lookup (recordKeyOf kind spelling) (fieldOutlines lookup fields)
    | .enum =>
      match canonical with
      | none => .plain ['i']
      | some integer => outline lookup none integer
    | .sugar sugar =>
      match canonical with
      | some target =>
        match target.unnamedRecord? with
        | some kind => unnamedOutline lookup ⟨kind, Naming.ofRecord spelling⟩ target
        | none => outline lookup hint target
      | none =>
        match sugar with
        | .synonym =>
          match lookup.synonym? (Naming.ofRecord spelling) with
          | some type => .plain type.encoding
          | none => outlineRest lookup hint none
        | .elaborated =>
          match Naming.elaboratedRecord? spelling with
          | some kind => .ofRecord lookup (recordKeyOf kind spelling) (fieldOutlines lookup fields)
          | none => outlineRest lookup hint none
        | .attributed => outlineRest lookup hint none
    | .function _ => .plain Encoding.unknown
    | .constantArray =>
      match element with
      | none => outlineRest lookup hint canonical
      | some element => .array (size.getD 0).toNat (outline lookup none element)
    | .incompleteArray =>
      match element with
      | none => outlineRest lookup hint canonical
      | some element => .pointer (outline lookup none element)
    | .vector | .unexposed | .dependent | .invalid | .other _ => outlineRest lookup hint canonical

/-- The outline of a handle that its kind does not determine: the hint decides, else the plain form, else nothing. -/
def outlineRest (lookup : Lookup) (hint : Option String) : Option TypeHandle → Outline
  | none =>
    match usableHint? hint with
    | some hint => .plain (Encoding.erase hint.toList)
    | none => .plain Encoding.unknown
  | some canonical =>
    match usableHint? hint with
    | some hint => .plain (Encoding.erase hint.toList)
    | none => outline lookup none canonical

/-- The outline of an unnamed record under the name in `key`, with the fields that the handle itself carries. -/
def unnamedOutline (lookup : Lookup) (key : RecordKey) : TypeHandle → Outline
  | { fields, .. } => .ofRecord lookup key (fieldOutlines lookup fields)

/-- The outline of a call to a function under its sugar. -/
def signatureOutline (lookup : Lookup) (callable : CallableKind) : TypeHandle → Outline
  | { kind := .sugar _, canonical := some function, .. } => signatureOutline lookup callable function
  | { result, arguments, .. } =>
    .call callable (returnedOutline lookup result) (argumentOutlines lookup arguments)

/-- The outline of what a call returns. -/
def returnedOutline (lookup : Lookup) : Option TypeHandle → Outline
  | none => .void
  | some result => outline lookup none result

/-- The outlines of what a call takes. -/
def argumentOutlines (lookup : Lookup) : List TypeHandle → List Outline
  | [] => []
  | argument :: rest => outline lookup none argument :: argumentOutlines lookup rest

/-- The outlines of the fields of a record. -/
def fieldOutlines (lookup : Lookup) : List FieldHandle → List Outline
  | [] => []
  | { type, .. } :: rest => outline lookup none type :: fieldOutlines lookup rest

end

theorem fieldOutlines_eq_map (lookup : Lookup) (fields : List FieldHandle) :
    fieldOutlines lookup fields = fields.map (·.type.outline lookup none) := by
  induction fields with
  | nil => rfl
  | cons field rest ih =>
    obtain ⟨name, type⟩ := field
    rw [fieldOutlines, ih, List.map_cons]

end TypeHandle

/-! ## Resolution by outlines -/

theorem erase_void : Encoding.erase ['v'] = ['v'] := by decide +kernel

/-- A record with the fields of a handle, if these come to what their outlines say. -/
theorem recordEncoding_eq {lookup : Lookup} {visiting : List RecordKey} {scope : Scope} {key : RecordKey}
    {fields : List FieldHandle}
    (h : TypeHandle.memberEncodings lookup (key :: visiting) fields =
      Outline.encodings
        (Outline.allPlacedIn (some (key :: visiting)) .field (TypeHandle.fieldOutlines lookup fields))) :
    lookup.recordEncoding visiting scope key
      (if fields.isEmpty then none else some fun visiting => TypeHandle.memberEncodings lookup visiting fields) =
    ((Outline.ofRecord lookup key (TypeHandle.fieldOutlines lookup fields)).placedIn
      (some visiting) scope).encoding := by
  unfold Lookup.recordEncoding
  cases fields with
  | nil =>
    rw [TypeHandle.fieldOutlines, Outline.ofRecord, Outline.placedIn, Outline.encoding, Watch.admits_some]
    split <;> rfl
  | cons field rest =>
    rw [TypeHandle.fieldOutlines_eq_map, List.map_cons] at h ⊢
    rw [Outline.ofRecord, Outline.placedIn, Watch.admits_some, Watch.enter_some]
    split
    · rw [Outline.encoding, ← h]
      rfl
    · rfl

namespace TypeHandle

mutual

/-- Resolving a handle is writing its outline, placed where the handle stands. -/
theorem encoding_resolveIn (lookup : Lookup) (visiting : List RecordKey) (scope : Scope) (hint : Option String) :
    ∀ handle : TypeHandle, (handle.resolveIn lookup visiting scope hint).encoding =
      ((handle.outline lookup hint).placedIn (some visiting) scope).encoding
  | { kind, spelling, pointee, canonical, fields, element, size, .. } => by
    unfold resolveIn outline
    cases kind with
    | pointer =>
      cases pointee with
      | none => exact encoding_resolveRest lookup visiting scope hint spelling canonical
      | some target =>
        dsimp only
        split
        · rfl
        split
        · exact around_signatureIn lookup visiting scope .functionPointer target
        · exact congrArg ('^' :: ·) (encoding_resolveIn lookup visiting scope.behindPointer none target)
    | blockPointer =>
      cases pointee with
      | none =>
        rw [Outline.placedIn, Outline.void, Outline.placedIn, Outline.encoding, Outline.encoding, erase_void]
        rfl
      | some function => exact around_signatureIn lookup visiting scope .block function
    | record kind => exact recordEncoding_eq (memberEncodings_eq lookup _ fields)
    | enum =>
      cases canonical with
      | none => rfl
      | some integer => exact encoding_resolveIn lookup visiting scope none integer
    | sugar sugar =>
      cases canonical with
      | some target =>
        dsimp only
        cases target.unnamedRecord? with
        | some kind => exact recordIn_eq lookup visiting scope _ target
        | none => exact encoding_resolveIn lookup visiting scope hint target
      | none =>
        cases sugar with
        | synonym =>
          dsimp only
          cases lookup.synonym? (Naming.ofRecord spelling) with
          | some type => rfl
          | none => exact encoding_resolveRest lookup visiting scope hint spelling none
        | elaborated =>
          dsimp only
          cases Naming.elaboratedRecord? spelling with
          | some kind => exact recordEncoding_eq (memberEncodings_eq lookup _ fields)
          | none => exact encoding_resolveRest lookup visiting scope hint spelling none
        | attributed => exact encoding_resolveRest lookup visiting scope hint spelling none
    | constantArray =>
      cases element with
      | none => exact encoding_resolveRest lookup visiting scope hint spelling canonical
      | some element =>
        dsimp only
        rw [encoding_resolveIn lookup visiting scope none element]
        rfl
    | incompleteArray =>
      cases element with
      | none => exact encoding_resolveRest lookup visiting scope hint spelling canonical
      | some element =>
        exact congrArg ('^' :: ·) (encoding_resolveIn lookup visiting scope.behindPointer none element)
    | vector | unexposed | dependent | invalid | other _ =>
      exact encoding_resolveRest lookup visiting scope hint spelling canonical
    | scalar _ | objcId | objcClass | objcSelector | objcObjectPointer | objcInterface | objcObject | objcTypeParam
    | function _ => rfl

theorem encoding_resolveRest (lookup : Lookup) (visiting : List RecordKey) (scope : Scope) (hint : Option String)
    (spelling : String) : ∀ canonical : Option TypeHandle,
      (resolveRest lookup visiting scope hint spelling canonical).encoding =
        ((outlineRest lookup hint canonical).placedIn (some visiting) scope).encoding
  | none => by
    unfold resolveRest outlineRest
    cases usableHint? hint <;> rfl
  | some canonical => by
    unfold resolveRest outlineRest
    cases usableHint? hint with
    | some hint => rfl
    | none => exact encoding_resolveIn lookup visiting scope none canonical

theorem recordIn_eq (lookup : Lookup) (visiting : List RecordKey) (scope : Scope) (key : RecordKey) :
    ∀ handle : TypeHandle, handle.recordIn lookup visiting scope key =
      ((handle.unnamedOutline lookup key).placedIn (some visiting) scope).encoding
  | { fields, .. } => by
    unfold recordIn unnamedOutline
    exact recordEncoding_eq (memberEncodings_eq lookup _ fields)

theorem around_signatureIn (lookup : Lookup) (visiting : List RecordKey) (scope : Scope) (callable : CallableKind) :
    ∀ handle : TypeHandle, callable.around (handle.signatureIn lookup visiting callable) =
      ((handle.signatureOutline lookup callable).placedIn (some visiting) scope).encoding
  | { kind, canonical, result, arguments, .. } => by
    have hcall : callable.around (returnedEncoding lookup visiting result ++ callable.mark ++
        argumentEncodings lookup visiting arguments) =
        ((Outline.call callable (returnedOutline lookup result) (argumentOutlines lookup arguments)).placedIn
          (some visiting) scope).encoding := by
      rw [Outline.placedIn, Outline.encoding, returnedEncoding_eq, argumentEncodings_eq]
    unfold signatureIn signatureOutline
    cases kind with
    | sugar sugar =>
      cases canonical with
      | some function => exact around_signatureIn lookup visiting scope callable function
      | none => exact hcall
    | _ => exact hcall

theorem returnedEncoding_eq (lookup : Lookup) (visiting : List RecordKey) : ∀ result : Option TypeHandle,
    returnedEncoding lookup visiting result =
      Encoding.erase ((returnedOutline lookup result).placedIn (some visiting) .outer).encoding
  | none => erase_void.symm
  | some result => by
    unfold returnedEncoding returnedOutline
    rw [encoding_resolveIn]

theorem argumentEncodings_eq (lookup : Lookup) (visiting : List RecordKey) : ∀ arguments : List TypeHandle,
    argumentEncodings lookup visiting arguments =
      (Outline.encodings (Outline.allPlacedIn (some visiting) .outer (argumentOutlines lookup arguments))).flatMap
        Encoding.erase
  | [] => rfl
  | argument :: rest => by
    unfold argumentEncodings argumentOutlines Outline.allPlacedIn Outline.encodings
    rw [encoding_resolveIn, argumentEncodings_eq lookup visiting rest, List.flatMap_cons]

theorem memberEncodings_eq (lookup : Lookup) (visiting : List RecordKey) : ∀ fields : List FieldHandle,
    memberEncodings lookup visiting fields =
      Outline.encodings (Outline.allPlacedIn (some visiting) .field (fieldOutlines lookup fields))
  | [] => rfl
  | { type, .. } :: rest => by
    unfold memberEncodings fieldOutlines Outline.allPlacedIn Outline.encodings
    rw [encoding_resolveIn, memberEncodings_eq lookup visiting rest]

end

/-- Resolving a declared type is writing its outline, with no record open. -/
theorem encoding_resolve (lookup : Lookup) (hint : Option String) (handle : TypeHandle) :
    (handle.resolve lookup hint).encoding =
      ((handle.outline lookup hint).placedIn (some []) .outer).encoding := by
  rw [resolve_eq, encoding_resolveIn]

end TypeHandle

end HeaderCatalog
