import HeaderCatalog.Proofs.Encoding.Neighbours
import HeaderCatalog.Proofs.Resolution.SingleValue

set_option autoImplicit false

/-!
# Signatures as they are written

A signature is the erased encodings of the types of a call with nothing between them: what is returned, the mark of a
block, and what is taken (`Callable.signatureBy_eq`).

If no name of a record contains brackets or quotes, resolution writes nothing that erasing takes away, and a signature
is its types as they are (`Callable.signature_of_plainNames`).  Reading it back is another matter.  Of types that are
one value each, the signature of a block gives back exactly those that have nothing to erase and do not run on into
their neighbours (`Callable.tokens_signatureBy_iff`).  Among the types that resolution writes, an object runs on into a
type that is unknown: together they are read as a block.
-/

namespace HeaderCatalog

open Encoding

/-! ## The types of a call -/

/-- What a resolver answers for a type that is part of no other. -/
def TypeHandle.encodingBy (lookup : Lookup) (resolver : Resolver) (handle : TypeHandle) : Encoding :=
  ((handle.reduce lookup none).run resolver).1.encoding

theorem TypeHandle.encodingBy_eq (lookup : Lookup) (resolver : Resolver) (handle : TypeHandle) :
    handle.encodingBy lookup resolver = (handle.resolveIn lookup resolver.visiting .outer none).encoding :=
  congrArg (·.1.encoding) (handle.yields_reduceIn lookup resolver.visiting .outer none resolver.references)

namespace Callable

/-- The types of a call, what it returns before what it takes. -/
def types (callable : Callable) : List TypeHandle := callable.result.toList ++ callable.arguments

variable (lookup : Lookup) (resolver : Resolver) (callable : Callable)

/-- The encoding of what a call returns; nothing reported is nothing returned. -/
def returnedBy : Encoding := (callable.result.map (·.encodingBy lookup resolver)).getD ['v']

/-- The encodings of what a call takes. -/
def takenBy : List Encoding := callable.arguments.map (·.encodingBy lookup resolver)

/-- What a resolver answers for the signature of a call. -/
def signatureBy : Encoding := ((callable.reduceSignature lookup).run resolver).1

/-- A signature is made of the erased encodings of its types. -/
theorem signatureBy_eq : callable.signatureBy lookup resolver =
    erase (callable.returnedBy lookup resolver) ++ callable.kind.mark ++
      (callable.takenBy lookup resolver).flatMap erase := by
  have hsignature : callable.signatureBy lookup resolver = _ :=
    congrArg Prod.fst (callable.yields_reduceSignature lookup resolver.visiting resolver.references)
  have hreturned : TypeHandle.returnedEncoding lookup resolver.visiting callable.result =
      erase (callable.returnedBy lookup resolver) := by
    rw [returnedBy]
    cases callable.result with
    | none => exact erase_void.symm
    | some result => exact congrArg erase (result.encodingBy_eq lookup resolver).symm
  have htaken : TypeHandle.argumentEncodings lookup resolver.visiting callable.arguments =
      (callable.takenBy lookup resolver).flatMap erase := by
    rw [TypeHandle.argumentEncodings_eq_flatMap, takenBy, List.flatMap_map]
    exact List.flatMap_congr fun argument _ => congrArg erase (argument.encodingBy_eq lookup resolver).symm
  rw [hsignature, hreturned, htaken]
  rfl

variable {lookup resolver callable}

/-- What holds of nothing returned and of every type of a call holds of what it returns and of all that it takes. -/
theorem forall_encodingBy (holds : Encoding → Prop) (hvoid : holds ['v'])
    (h : ∀ handle ∈ callable.types, holds (handle.encodingBy lookup resolver)) :
    holds (callable.returnedBy lookup resolver) ∧ ∀ encoding ∈ callable.takenBy lookup resolver, holds encoding := by
  constructor
  · rw [returnedBy]
    cases hresult : callable.result with
    | none => exact hvoid
    | some result => exact h result (by simp [types, hresult])
  · intro encoding hencoding
    obtain ⟨argument, hargument, rfl⟩ := List.mem_map.1 hencoding
    exact h argument (List.mem_append_right _ hargument)

end Callable

/-! ## Names without brackets and quotes -/

/-- Whether the names of all records that are written for a handle, with nothing known and some records open, are free
of brackets and quotes. -/
def TypeHandle.WritesPlainNames (visiting : List RecordKey) (handle : TypeHandle) : Prop :=
  ∀ key ∈ ((handle.outline .empty none).placedIn (some visiting) .outer).keys,
    key.name.toList.all isNameCharacter = true

instance (visiting : List RecordKey) (handle : TypeHandle) : Decidable (handle.WritesPlainNames visiting) :=
  inferInstanceAs (Decidable (∀ _ ∈ _, _))

section PlainNames

variable {resolver : Resolver} {handle : TypeHandle}

theorem TypeHandle.encodingBy_empty (resolver : Resolver) (handle : TypeHandle) : handle.encodingBy .empty resolver =
    ((handle.outline .empty none).placedIn (some resolver.visiting) .outer).encoding := by
  rw [encodingBy_eq, encoding_resolveIn]

/-- What a type with plain names is written as is steady. -/
theorem TypeHandle.WritesPlainNames.steady (h : handle.WritesPlainNames resolver.visiting) :
    Steady (handle.encodingBy .empty resolver) := by
  rw [encodingBy_empty]
  exact Outline.steady_encoding _ (clean_outline handle h)

theorem Callable.steady_encodingBy {callable : Callable}
    (h : ∀ handle ∈ callable.types, handle.WritesPlainNames resolver.visiting) :
    Steady (callable.returnedBy .empty resolver) ∧ ∀ encoding ∈ callable.takenBy .empty resolver, Steady encoding :=
  forall_encodingBy Steady (steady_code (by decide)) fun handle hhandle => (h handle hhandle).steady

/-- **Where names are free of brackets and quotes, nothing that resolution writes is erased**, here with nothing known
and no hint.  A signature of such types is these types one after the other, and for a block its mark between them. -/
theorem Callable.signature_of_plainNames (resolver : Resolver) :
    (∀ handle : TypeHandle, handle.WritesPlainNames resolver.visiting →
      handle.encodingBy .empty resolver =
          ((handle.outline .empty none).placedIn (some resolver.visiting) .outer).encoding ∧
        erase (handle.encodingBy .empty resolver) = handle.encodingBy .empty resolver) ∧
    ∀ callable : Callable, (∀ handle ∈ callable.types, handle.WritesPlainNames resolver.visiting) →
      callable.signatureBy .empty resolver =
        callable.returnedBy .empty resolver ++ callable.kind.mark ++ (callable.takenBy .empty resolver).flatten := by
  refine ⟨fun handle h => ⟨handle.encodingBy_empty resolver, h.steady.erase⟩, fun callable h => ?_⟩
  obtain ⟨hreturned, htaken⟩ := steady_encodingBy h
  rw [signatureBy_eq, hreturned.erase, Steady.flatMap_erase htaken]

/-- A block that takes a callback and the table it is looked up in.  Neither the signature of the callback nor the
length of the table is lost. -/
theorem Callable.signature_of_plainNames_dispatch :
    let word : TypeHandle := { kind := .scalar .unsignedInt }
    let event : TypeHandle := { kind := .record .struct, spelling := "struct Event", fields := [⟨"code", word⟩] }
    let handler : TypeHandle :=
      { kind := .pointer, pointee := some
          { kind := .function true, result := some { kind := .scalar .bool },
            arguments := [{ kind := .pointer, pointee := some event }] } }
    let table : TypeHandle := { kind := .constantArray, element := some handler, size := some 16 }
    let dispatch : Callable :=
      ⟨.block, "struct Event (^)(handler, table)", some
        { kind := .function true, result := some event, arguments := [handler, table] }⟩
    (table.WritesPlainNames [] ∧ ∀ handle ∈ dispatch.types, handle.WritesPlainNames []) ∧
      erase (table.encodingBy .empty .fresh) = "[16^?<B^{Event=I}>]".toList ∧
      dispatch.signatureBy .empty .fresh = "{Event=I}@?^?<B^{Event=I}>[16^?<B^{Event=I}>]".toList := by
  intro word event handler table dispatch
  have htable : table.WritesPlainNames [] := by decide +kernel
  have hdispatch : ∀ handle ∈ dispatch.types, handle.WritesPlainNames [] := by decide +kernel
  obtain ⟨hwritten, hkept⟩ := (signature_of_plainNames .fresh).1 table htable
  refine ⟨⟨htable, hdispatch⟩, ?_, ?_⟩
  · rw [hkept, hwritten]
    decide +kernel
  · rw [(signature_of_plainNames .fresh).2 dispatch hdispatch]
    decide +kernel

end PlainNames

/-! ## Reading a signature back -/

theorem Encoding.delimited_code {c : Char} (h : c ∈ codes) : Delimited [c] := by
  have hclosed : codes.all (fun c => !isOpen [c]) = true := by decide
  have hstarts : codes.all EncodedValue.canStart = true := by decide
  refine ⟨by simpa using List.all_eq_true.1 hclosed c h, ?_⟩
  rintro d ⟨⟩
  exact List.all_eq_true.1 hstarts c h

/-- What is written for a clean outline is closed and starts like a value, unless it reaches a function pointer. -/
theorem Outline.delimited_encoding : ∀ outline : Outline, Clean outline.leaves outline.records →
    outline.reachesFunctionPointer = false → Delimited outline.encoding
  | plain encoding => by
    intro h _
    obtain ⟨c, hc, rfl⟩ := h.leaf encoding List.mem_cons_self
    exact delimited_code hc
  | pointer target => fun h hreaches => delimited_pointer (delimited_encoding target h hreaches)
  | array length element => fun h _ => delimited_whole (whole_array length (steady_encoding element h).balanced)
  | record key fields => by
    intro h _
    refine delimited_whole (whole_record h.balanced_name ?_)
    rintro _ ⟨⟩
    exact steady_encodings fields h.fields
  | known key members => fun h _ => delimited_whole (whole_record h.balanced_name h.steady_members)
  | call .functionPointer _ _ => fun _ hreaches => nomatch hreaches
  | call .block returned taken => by
    intro h _
    have hsignature := steady_signature .block (steady_encoding returned h.left) (steady_encodings taken h.right)
    exact delimited_blockOf hsignature.balanced

/-- A type with plain names that is one value is closed and starts like one. -/
theorem TypeHandle.WritesPlainNames.delimited {resolver : Resolver} {handle : TypeHandle}
    (h : handle.WritesPlainNames resolver.visiting)
    (hsingle : tokens (handle.encodingBy .empty resolver) = [handle.encodingBy .empty resolver]) :
    Delimited (handle.encodingBy .empty resolver) := by
  rw [encodingBy_empty] at hsingle ⊢
  have hreaches := (Outline.tokens_encoding _ (clean_outline handle h)).1 hsingle
  exact Outline.delimited_encoding _ (clean_outline handle h) hreaches

namespace Callable

variable {lookup : Lookup} {resolver : Resolver} {callable : Callable}

theorem delimited_encodingBy (h : ∀ handle ∈ callable.types, handle.WritesPlainNames resolver.visiting) :
    (tokens (callable.returnedBy .empty resolver) = [callable.returnedBy .empty resolver] →
        Delimited (callable.returnedBy .empty resolver)) ∧
      ∀ encoding ∈ callable.takenBy .empty resolver, tokens encoding = [encoding] → Delimited encoding :=
  forall_encodingBy (fun encoding => tokens encoding = [encoding] → Delimited encoding)
    (fun _ => delimited_code (by decide)) fun handle hhandle => (h handle hhandle).delimited

theorem delimited_mark : Delimited ['@', '?'] := by
  refine ⟨by decide, ?_⟩
  rintro c ⟨⟩
  decide

/-- The values of a signature of a block, the mark among them. -/
theorem signatureBy_eq_flatMap (hblock : callable.kind = .block) : callable.signatureBy lookup resolver =
    (callable.returnedBy lookup resolver :: ['@', '?'] :: callable.takenBy lookup resolver).flatMap erase := by
  have hmark : callable.kind.mark = erase ['@', '?'] := by
    rw [hblock]
    decide +kernel
  rw [signatureBy_eq, List.flatMap_cons, List.flatMap_cons, List.append_assoc, hmark]

/-- **Reading the signature of a block back.**  If every type of the call is one value, the signature is read as what is
returned, the mark and what is taken if and only if nothing of these types is erased and none of them runs on into the
next one.  With nothing known and plain names, this is to say that no object comes right before an unknown type. -/
theorem tokens_signatureBy_iff (lookup : Lookup) (resolver : Resolver) (callable : Callable)
    (hblock : callable.kind = .block)
    (hreturned : tokens (callable.returnedBy lookup resolver) = [callable.returnedBy lookup resolver])
    (htaken : ∀ encoding ∈ callable.takenBy lookup resolver, tokens encoding = [encoding]) :
    let parts := callable.returnedBy lookup resolver :: ['@', '?'] :: callable.takenBy lookup resolver
    (tokens (callable.signatureBy lookup resolver) = parts ↔
      (∀ encoding ∈ parts, erase encoding = encoding) ∧ parts.IsChain fun value next => ¬RunsOn value next) ∧
    (lookup = .empty → (∀ handle ∈ callable.types, handle.WritesPlainNames resolver.visiting) →
      (tokens (callable.signatureBy lookup resolver) = parts ↔
        (callable.takenBy lookup resolver).IsChain fun value next =>
          body value = ['@'] → next.head? ≠ some '?')) := by
  intro parts
  have hparts : ∀ {holds : Encoding → Prop}, holds (callable.returnedBy lookup resolver) → holds ['@', '?'] →
      (∀ encoding ∈ callable.takenBy lookup resolver, holds encoding) → ∀ encoding ∈ parts, holds encoding :=
    fun hreturned hmark htaken => List.forall_mem_cons.2 ⟨hreturned, List.forall_mem_cons.2 ⟨hmark, htaken⟩⟩
  have hread := tokens_flatMap_erase_iff (hparts hreturned (by decide +kernel) htaken)
  rw [← signatureBy_eq_flatMap hblock] at hread
  refine ⟨hread, ?_⟩
  rintro rfl hnames
  obtain ⟨hreturnedSteady, htakenSteady⟩ := steady_encodingBy hnames
  obtain ⟨hreturnedDelimited, htakenDelimited⟩ := delimited_encodingBy hnames
  have hkept : ∀ encoding ∈ parts, erase encoding = encoding :=
    hparts hreturnedSteady.erase (by decide +kernel) fun encoding hencoding => (htakenSteady encoding hencoding).erase
  have hdelimited : ∀ encoding ∈ parts, Delimited encoding :=
    hparts (hreturnedDelimited hreturned) delimited_mark fun encoding hencoding =>
      htakenDelimited encoding hencoding (htaken encoding hencoding)
  have hchain : (parts.IsChain fun value next => ¬RunsOn value next) ↔
      parts.IsChain fun value next => body value = ['@'] → next.head? ≠ some '?' := by
    refine List.IsChain.iff_of_mem_imp fun value next hvalue hnext => ?_
    rw [(hdelimited value hvalue).runsOn_iff (hdelimited next hnext), not_and]
  rw [hread, and_iff_right hkept, hchain]
  -- the mark starts with no question mark, and is no object
  have hmark : body ['@', '?'] ≠ ['@'] := by decide
  simp [parts, List.isChain_cons, hmark]

/-- An unknown type is read back behind anything but an object: here behind the mark, and behind a block. -/
theorem tokens_signatureBy_iff_visit :
    let object : TypeHandle := { kind := .objcId, spelling := "id" }
    let unknown : TypeHandle := { kind := .unexposed, spelling := "Context" }
    let result : TypeHandle :=
      { kind := .record .union, spelling := "union Reply",
        fields := [⟨"found", object⟩, ⟨"count", { kind := .scalar .int }⟩] }
    let visitor : TypeHandle :=
      { kind := .blockPointer, pointee := some { kind := .function true, result := none, arguments := [object] } }
    let visit : Callable :=
      ⟨.block, "union Reply (^)(Context, id, visitor, Context)", some
        { kind := .function true, result := some result, arguments := [unknown, object, visitor, unknown] }⟩
    (visit.kind = .block ∧
      tokens (visit.returnedBy .empty .fresh) = [visit.returnedBy .empty .fresh] ∧
      (∀ encoding ∈ visit.takenBy .empty .fresh, tokens encoding = [encoding]) ∧
      ∀ handle ∈ visit.types, handle.WritesPlainNames []) ∧
    tokens (visit.signatureBy .empty .fresh) =
      ["(Reply=@i)".toList, "@?".toList, "?".toList, "@".toList, "@?<v@?@>".toList, "?".toList] := by
  intro object unknown result visitor visit
  have hreturned : tokens (visit.returnedBy .empty .fresh) = [visit.returnedBy .empty .fresh] := by decide +kernel
  have htaken : ∀ encoding ∈ visit.takenBy .empty .fresh, tokens encoding = [encoding] := by decide +kernel
  have hnames : ∀ handle ∈ visit.types, handle.WritesPlainNames [] := by decide +kernel
  refine ⟨⟨rfl, hreturned, htaken, hnames⟩, ?_⟩
  have hread := (tokens_signatureBy_iff .empty .fresh visit rfl hreturned htaken).2 rfl hnames
  rw [hread.2 (by decide +kernel)]
  decide +kernel

/-- An object and an unknown type behind it are one value each, and read as one block. -/
theorem tokens_signatureBy_ne_compare :
    let object : TypeHandle := { kind := .objcId, spelling := "id" }
    let unknown : TypeHandle := { kind := .unexposed, spelling := "Context" }
    let compare : Callable :=
      ⟨.block, "void (^)(id, Context)", some { kind := .function true, arguments := [object, unknown] }⟩
    compare.kind = .block ∧
      tokens (compare.returnedBy .empty .fresh) = [compare.returnedBy .empty .fresh] ∧
      (∀ encoding ∈ compare.takenBy .empty .fresh, tokens encoding = [encoding]) ∧
      compare.returnedBy .empty .fresh :: ['@', '?'] :: compare.takenBy .empty .fresh =
        [['v'], ['@', '?'], ['@'], ['?']] ∧
      compare.signatureBy .empty .fresh = "v@?@?".toList ∧
      tokens (compare.signatureBy .empty .fresh) = [['v'], ['@', '?'], ['@', '?']] := by
  decide +kernel

end Callable

end HeaderCatalog
