import HeaderCatalog.Proofs.Encoding.Erased
import HeaderCatalog.Proofs.Resolution.Leaves

set_option autoImplicit false

/-!
# Encodings of types as single values

What resolution writes is put together of codes and brackets that match, as long as there are no brackets in the names
of the records (`Outline.Clean`).  Such an encoding is steady (`steady_encoding`): it is its own erased form, so a
signature is its parts one after the other.  And it is cut into the one value that it is.

There is one exception.  A function pointer is written like a block, with its signature between angle brackets, but only
a block is cut like one.  The pointer mark and the question mark of a function pointer are a value by themselves, and
its signature is cut into pieces (`tokens_resolve_iff`).
-/

namespace HeaderCatalog

open Encoding

namespace Encoding

/-! ## The parts of an encoding -/

/-- A record is kept as a whole. -/
theorem whole_record {kind : RecordKind} {name : String} {members : Option (List Encoding)}
    (hname : Balanced name.toList) (hmembers : ∀ encodings ∈ members, ∀ s ∈ encodings, Steady s) :
    Whole (record kind name members) := by
  cases members with
  | none => exact .group (mem_keptGroups_record kind) hname
  | some encodings =>
    have hencodings := (Steady.flatten (hmembers encodings rfl)).balanced
    exact .group (mem_keptGroups_record kind) (hname.append (.cons (by decide) hencodings))

/-- An array is kept as a whole. -/
theorem whole_array (length : Nat) {s : Encoding} (hs : Balanced s) :
    Whole ('[' :: (toString length).toList ++ s ++ [']']) := by
  have hlength : Balanced (toString length).toList := by
    refine .digits fun c hc => ?_
    rw [Nat.toString_eq_repr, Nat.toList_repr] at hc
    exact Nat.isDigit_of_mem_toDigits (by decide) (by decide) hc
  exact .group (by decide) (hlength.append hs)

theorem steady_code {c : Char} (h : c ∈ codes) : Steady [c] := by
  have hcodes : codes.all (fun c => isKept c && isNameCharacter c) = true := by decide
  have hcode := List.all_eq_true.1 hcodes c h
  rw [Bool.and_eq_true] at hcode
  exact .code hcode.1 hcode.2 .nil

theorem steady_mark (callable : CallableKind) : Steady callable.mark := by
  cases callable with
  | functionPointer => exact .nil
  | block => exact .code (by decide) (by decide) (.code (by decide) (by decide) .nil)

/-- A signature of steady parts is steady. -/
theorem steady_signature (callable : CallableKind) {returned : Encoding} {taken : List Encoding}
    (hreturned : Steady returned) (htaken : ∀ s ∈ taken, Steady s) :
    Steady (erase returned ++ callable.mark ++ taken.flatMap erase) := by
  rw [hreturned.erase, Steady.flatMap_erase htaken]
  exact (hreturned.append (steady_mark callable)).append (.flatten htaken)

theorem steady_around (callable : CallableKind) {s : Encoding} (h : Steady s) : Steady (callable.around s) := by
  cases callable <;> exact .code (by decide) (by decide) (.code (by decide) (by decide) h.signature)

/-! ## One value -/

theorem splitValue_snd_whole {part : Encoding} (h : Whole part) : (splitValue part).2 = [] := by
  have hsplit : splitValue (part ++ []) = (part, []) := splitValue_whole h nofun
  rw [List.append_nil] at hsplit
  rw [hsplit]

theorem splitValue_snd_blockOf {s : Encoding} (hs : Balanced s) : (splitValue (blockOf s)).2 = [] := by
  have hsplit := splitValue_blockOf hs []
  rw [List.append_nil] at hsplit
  rw [hsplit]

end Encoding

namespace Outline

/-- What an outline is written from: leaves that are codes, and names that could stand in an encoding. -/
structure Clean (leaves : List Encoding) (records : List (RecordKey × List Outline)) : Prop where
  leaf : ∀ leaf ∈ leaves, ∃ c ∈ codes, leaf = [c]
  name : ∀ pair ∈ records, ∀ c ∈ pair.1.name.toList, isNameCharacter c = true

section Clean

variable {leaves rest : List Encoding} {records others : List (RecordKey × List Outline)}

theorem Clean.left (h : Clean (leaves ++ rest) (records ++ others)) : Clean leaves records :=
  ⟨fun leaf hleaf => h.leaf leaf (List.mem_append_left _ hleaf),
    fun pair hpair => h.name pair (List.mem_append_left _ hpair)⟩

theorem Clean.right (h : Clean (leaves ++ rest) (records ++ others)) : Clean rest others :=
  ⟨fun leaf hleaf => h.leaf leaf (List.mem_append_right _ hleaf),
    fun pair hpair => h.name pair (List.mem_append_right _ hpair)⟩

theorem Clean.fields {key : RecordKey} {fields : List Outline} (h : Clean leaves ((key, fields) :: records)) :
    Clean leaves records :=
  ⟨h.leaf, fun pair hpair => h.name pair (List.mem_cons_of_mem _ hpair)⟩

/-- What is known of the members of a record is a list of its leaves. -/
theorem Clean.steady_members {members : Option (List Encoding)} (h : Clean (members.getD []) records) :
    ∀ encodings ∈ members, ∀ s ∈ encodings, Steady s := by
  rintro encodings ⟨⟩ s hs
  obtain ⟨c, hc, rfl⟩ := h.leaf s hs
  exact steady_code hc

theorem Clean.balanced_name {key : RecordKey} {fields : List Outline} (h : Clean leaves ((key, fields) :: records)) :
    Balanced key.name.toList :=
  .plain (h.name _ List.mem_cons_self)

end Clean

mutual

/-- The encoding of a clean outline is steady. -/
theorem steady_encoding : ∀ outline : Outline, Clean outline.leaves outline.records → Steady outline.encoding
  | plain encoding => by
    intro h
    obtain ⟨c, hc, rfl⟩ := h.leaf encoding List.mem_cons_self
    exact steady_code hc
  | pointer target => fun h => .code (by decide) (by decide) (steady_encoding target h)
  | array length element => fun h => .whole (whole_array length (steady_encoding element h).balanced)
  | record key fields => by
    intro h
    refine .whole (whole_record h.balanced_name ?_)
    rintro _ ⟨⟩
    exact steady_encodings fields h.fields
  | known key members => fun h => .whole (whole_record h.balanced_name h.steady_members)
  | call callable returned taken => fun h =>
    steady_around callable
      (steady_signature callable (steady_encoding returned h.left) (steady_encodings taken h.right))

theorem steady_encodings : ∀ outlines : List Outline, Clean (allLeaves outlines) (allRecords outlines) →
    ∀ s ∈ encodings outlines, Steady s
  | [] => fun _ _ h => nomatch h
  | outline :: rest => by
    intro h s hs
    rcases List.mem_cons.1 hs with rfl | hs
    · exact steady_encoding outline h.left
    · exact steady_encodings rest h.right s hs

end

/-! ## Cutting off one value -/

/-- Whether an outline is that of a function pointer, behind any number of pointers. -/
def reachesFunctionPointer : Outline → Bool
  | call .functionPointer _ _ => true
  | pointer target => target.reachesFunctionPointer
  | _ => false

theorem reachesFunctionPointer_placedIn (watch : Watch) (scope : Scope) : ∀ outline : Outline,
    (outline.placedIn watch scope).reachesFunctionPointer = outline.reachesFunctionPointer
  | plain _ | array _ _ | known _ _ => rfl
  | pointer target => reachesFunctionPointer_placedIn watch scope.behindPointer target
  | record key fields => by
    unfold placedIn
    split <;> rfl
  | call callable returned taken => by cases callable <;> rfl

/-- The encoding of a clean outline is split off whole, unless it reaches a function pointer. -/
theorem splitValue_encoding : ∀ outline : Outline, Clean outline.leaves outline.records →
    ((splitValue outline.encoding).2 = [] ↔ outline.reachesFunctionPointer = false)
  | plain encoding => by
    intro h
    have hcodes : codes.all (fun c => (splitValue [c]).2.isEmpty) = true := by decide
    obtain ⟨c, hc, rfl⟩ := h.leaf encoding List.mem_cons_self
    exact iff_of_true (List.isEmpty_iff.1 (List.all_eq_true.1 hcodes c hc)) rfl
  | pointer target => by
    intro h
    rw [encoding, splitValue_lead (by decide), keep_snd]
    exact splitValue_encoding target h
  | array length element => fun h =>
    iff_of_true (splitValue_snd_whole (whole_array length (steady_encoding element h).balanced)) rfl
  | record key fields => by
    intro h
    refine iff_of_true (splitValue_snd_whole (whole_record h.balanced_name ?_)) rfl
    rintro _ ⟨⟩
    exact steady_encodings fields h.fields
  | known key members => fun h =>
    iff_of_true (splitValue_snd_whole (whole_record h.balanced_name h.steady_members)) rfl
  | call .functionPointer returned taken => fun _ => iff_of_false (List.cons_ne_nil _ _) Bool.noConfusion
  | call .block returned taken => by
    intro h
    have hsignature := steady_signature .block (steady_encoding returned h.left) (steady_encodings taken h.right)
    exact iff_of_true (splitValue_snd_blockOf hsignature.balanced) rfl

theorem encoding_ne_nil : ∀ outline : Outline, Clean outline.leaves outline.records → outline.encoding ≠ []
  | plain encoding => by
    intro h
    obtain ⟨c, -, rfl⟩ := h.leaf encoding List.mem_cons_self
    exact List.cons_ne_nil c []
  | pointer _ | array _ _ | record _ _ | known _ none | known _ (some _) | call .block _ _
  | call .functionPointer _ _ => fun _ => List.cons_ne_nil _ _

/-- The encoding of a clean outline is one value, unless it reaches a function pointer. -/
theorem tokens_encoding (outline : Outline) (h : Clean outline.leaves outline.records) :
    tokens outline.encoding = [outline.encoding] ↔ outline.reachesFunctionPointer = false := by
  obtain ⟨c, s, hencoding⟩ := List.exists_cons_of_ne_nil (encoding_ne_nil outline h)
  have hsettled := (steady_encoding outline h).settled
  have hvalue := splitValue_encoding outline h
  rw [hencoding] at hsettled hvalue ⊢
  rw [tokens_eq_singleton hsettled.start.1, hvalue]

end Outline

namespace TypeHandle

/-- What is written for a handle, with nothing known and no hint, is clean if the names are. -/
theorem clean_outline {visiting : List RecordKey} (handle : TypeHandle)
    (h : ∀ key ∈ ((handle.outline .empty none).placedIn (some visiting) .outer).keys,
      key.name.toList.all isNameCharacter = true) :
    Outline.Clean ((handle.outline .empty none).placedIn (some visiting) .outer).leaves
      ((handle.outline .empty none).placedIn (some visiting) .outer).records := by
  refine ⟨fun leaf hleaf => ?_, fun pair hpair => ?_⟩
  · exact leaf_outline_empty ((Outline.leaves_placedIn_sublist _ _ _).subset hleaf)
  · exact List.all_eq_true.1 (h pair.1 (List.mem_map_of_mem hpair))

/-- **What resolution writes is one value, unless it is a function pointer or points to one.**  The keys are those of
the records that are written. -/
theorem tokens_resolve_iff (handle : TypeHandle)
    (h : ∀ key ∈ ((handle.outline .empty none).placedIn (some []) .outer).keys,
      key.name.toList.all isNameCharacter = true) :
    (handle.resolve .empty none).encoding = ((handle.outline .empty none).placedIn (some []) .outer).encoding ∧
    (tokens (handle.resolve .empty none).encoding = [(handle.resolve .empty none).encoding] ↔
      (handle.outline .empty none).reachesFunctionPointer = false) := by
  have hencoding := encoding_resolve .empty none handle
  refine ⟨hencoding, ?_⟩
  rw [hencoding, Outline.tokens_encoding _ (clean_outline handle h), Outline.reachesFunctionPointer_placedIn]

/-- A function pointer inside a record is held together by the record, here behind a pointer. -/
theorem tokens_resolve_timer :
    let callback : TypeHandle :=
      { kind := .pointer, pointee := some
          { kind := .function true, result := some { kind := .scalar .void }, arguments := [{ kind := .objcId }] } }
    let laps : TypeHandle := { kind := .constantArray, element := some { kind := .scalar .double }, size := some 12 }
    let timer : TypeHandle :=
      { kind := .pointer, pointee := some
          { kind := .record .struct, spelling := "struct Timer", fields := [⟨"laps", laps⟩, ⟨"expired", callback⟩] } }
    (∀ key ∈ ((timer.outline .empty none).placedIn (some []) .outer).keys,
        key.name.toList.all isNameCharacter = true) ∧
      (timer.resolve .empty none).encoding = ((timer.outline .empty none).placedIn (some []) .outer).encoding ∧
      (tokens (timer.resolve .empty none).encoding = [(timer.resolve .empty none).encoding] ↔
        (timer.outline .empty none).reachesFunctionPointer = false) := by
  intro callback laps timer
  have h : ∀ key ∈ ((timer.outline .empty none).placedIn (some []) .outer).keys,
      key.name.toList.all isNameCharacter = true := by decide +kernel
  exact ⟨h, tokens_resolve_iff timer h⟩

/-- A pointer to a function from integers to nothing is written without any name, and cut into five values. -/
theorem tokens_resolve_callback :
    let callback : TypeHandle :=
      { kind := .pointer, spelling := "void (*)(int)", pointee := some
          { kind := .function true, spelling := "void (int)", result := some { kind := .scalar .void },
            arguments := [{ kind := .scalar .int }] } }
    ((callback.outline .empty none).placedIn (some []) .outer).keys = [] ∧
      (callback.resolve .empty none).encoding = ['^', '?', '<', 'v', 'i', '>'] ∧
      tokens (callback.resolve .empty none).encoding = [['^', '?'], ['<'], ['v'], ['i'], ['>']] := by
  decide +kernel

end TypeHandle

end HeaderCatalog
