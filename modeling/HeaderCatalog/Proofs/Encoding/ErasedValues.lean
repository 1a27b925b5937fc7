import HeaderCatalog.Proofs.Encoding.Erased

set_option autoImplicit false

/-!
# Erasing the values of the grammar

What erasure leaves of an encoding can be told from the values it was written from, without cutting it into tokens:
`erased` goes through a value and drops qualifiers, and in the signature of a block the offsets as well.  Erasing the
text of separated values writes their erased forms one after the other (`erase_text`).

The offsets that kept two values apart are gone from the result, so an object and an unknown type behind it may now be
read as a block.  The result is settled all the same, and erasing it again changes nothing.
-/

namespace HeaderCatalog

open Encoding

namespace PlacedValues

/-- The values of a signature, with the digits behind them as offsets. -/
def ofSignature (signature : List (EncodedValue × Run Char.isDigit)) : PlacedValues :=
  signature.map fun part => (part.1, ⟨part.2.1, List.all_eq_true.2 fun _ hc => by
    simp [isOffset, part.2.allowed_of_mem hc]⟩)

theorem text_ofSignature (signature : List (EncodedValue × Run Char.isDigit)) :
    (ofSignature signature).text = EncodedValue.textOfSignature signature := by
  induction signature with
  | nil => rfl
  | cons part rest ih => exact congrArg ((part.1.text ++ part.2.1) ++ ·) ih

/-- Erasing separated values erases them one by one. -/
theorem erase_eq_flatMap {parts : PlacedValues} (h : parts.Separated) :
    erase parts.text = parts.flatMap fun part => eraseValue part.1.text := by
  rw [erase_eq, tokens_text h, List.flatMap_map]

end PlacedValues

namespace EncodedValue

/-! ## Erased values -/

mutual

/-- What erasure leaves of a value: no qualifiers, the mark of a pointer, and the signature of a block without
qualifiers and offsets.  Records, unions, arrays and quoted names are kept letter by letter. -/
def erased : EncodedValue → Encoding
  | qualified _ value => erased value
  | pointer target => '^' :: erased target
  | blockOf signature => '@' :: '?' :: '<' :: erasedSignature signature ++ ['>']
  | value => value.text

/-- What erasure leaves of a signature. -/
def erasedSignature : List (EncodedValue × Run Char.isDigit) → Encoding
  | [] => []
  | (value, _) :: rest => erased value ++ erasedSignature rest

end

mutual

/-- Whether the values of every signature that erasure looks into can be told apart. -/
def isSpaced : EncodedValue → Bool
  | qualified _ value | pointer value => value.isSpaced
  | blockOf signature => decide (PlacedValues.ofSignature signature).Separated && isSpacedSignature signature
  | _ => true

/-- Whether this holds of the signatures inside a signature. -/
def isSpacedSignature : List (EncodedValue × Run Char.isDigit) → Bool
  | [] => true
  | (value, _) :: rest => value.isSpaced && isSpacedSignature rest

end

/-! ## Values that are kept as a whole -/

theorem balanced_text (value : EncodedValue) : Balanced value.text := fun _ hpair => passes_text hpair value

theorem balanced_textOfMembers (members : List EncodedValue) : Balanced (textOfMembers members) :=
  fun _ hpair => passes_textOfMembers hpair members

theorem balanced_name (name : Run isNameCharacter) : Balanced name.1 := .plain fun _ hc => name.allowed_of_mem hc

theorem whole_array (count : Run Char.isDigit) (element : EncodedValue) : Whole (array count element).text := by
  have hinner := (Balanced.digits fun _ hc => count.allowed_of_mem hc).append element.balanced_text
  exact .group (by decide) hinner

theorem whole_bareRecord (kind : RecordKind) (name : Run isNameCharacter) : Whole (bareRecord kind name).text :=
  .group (mem_keptGroups_record kind) (balanced_name name)

theorem whole_record (kind : RecordKind) (name : Run isNameCharacter) (members : List EncodedValue) :
    Whole (record kind name members).text := by
  have hmembers := Balanced.cons (by decide : isNameCharacter '=' = true) (balanced_textOfMembers members)
  exact .group (mem_keptGroups_record kind) ((balanced_name name).append hmembers)

theorem whole_objectOf (name : Run (· != '"')) : Whole (objectOf name).text :=
  .objectOf fun _ hc => bne_iff_ne.1 (name.allowed_of_mem hc)

theorem whole_bitField (width : Run Char.isDigit) : Whole (bitField width).text :=
  .bitField fun _ hc => width.allowed_of_mem hc

/-! ## Erasing a value -/

theorem eraseValue_qualifier {c : Char} (h : isQualifier c = true) (t : Encoding) :
    eraseValue (c :: t) = eraseValue t := by
  have hlead : isLead c = true := by simp [isLead, h]
  have hmark : (c == '^') = false := by
    rw [beq_eq_false_iff_ne]
    rintro rfl
    cases h
  rw [eraseValue, eraseValue, pointerMarks, pointerMarks, body, body, List.takeWhile_cons_of_pos hlead,
    List.dropWhile_cons_of_pos hlead, List.filter_cons_of_neg (by simp [hmark])]

theorem eraseValue_primitive (code : { c : Char // c ∈ primitives }) : eraseValue [code.1] = [code.1] := by
  have hcodes : primitives.all (fun c => !isLead c && c != '@') = true := by decide
  have hcode := List.all_eq_true.1 hcodes code.1 code.2
  rw [Bool.and_eq_true, Bool.not_eq_true', bne_iff_ne] at hcode
  exact eraseValue_body hcode.1 (blockSignature?_of_ne hcode.2)

/-- A block around a signature is kept, with what is left of the signature. -/
theorem eraseValue_blockOf (inner : Encoding) :
    eraseValue ('@' :: '?' :: '<' :: inner ++ ['>']) = '@' :: '?' :: '<' :: erase inner ++ ['>'] := by
  have hsignature : blockSignature? ('@' :: '?' :: '<' :: (inner ++ ['>'])) = some inner := by
    simp [blockSignature?]
  rw [List.cons_append, List.cons_append, List.cons_append, eraseValue,
    show body ('@' :: '?' :: '<' :: (inner ++ ['>'])) = '@' :: '?' :: '<' :: (inner ++ ['>']) from rfl, hsignature]
  rfl

mutual

/-- A value is erased to its erased form. -/
theorem eraseValue_text : ∀ {value : EncodedValue}, value.isSpaced = true → eraseValue value.text = value.erased
  | primitive code, _ => eraseValue_primitive code
  | qualified qualifier value, h => by
    have hvalue : value.isSpaced = true := h
    rw [text, eraseValue_qualifier qualifier.2, eraseValue_text hvalue, erased]
  | pointer target, h => by
    have htarget : target.isSpaced = true := h
    rw [text, eraseValue_pointer, eraseValue_text htarget, erased]
  | array count element, _ => eraseValue_whole (whole_array count element)
  | bareRecord kind name, _ => eraseValue_whole (whole_bareRecord kind name)
  | record kind name members, _ => eraseValue_whole (whole_record kind name members)
  | object, _ => eraseValue_body (by decide) rfl
  | objectOf name, _ => eraseValue_whole (whole_objectOf name)
  | block, _ => eraseValue_body (by decide) rfl
  | blockOf signature, h => by
    rw [isSpaced, Bool.and_eq_true, decide_eq_true_eq] at h
    rw [text, eraseValue_blockOf, ← PlacedValues.text_ofSignature, PlacedValues.erase_eq_flatMap h.1,
      eraseValue_signature h.2, erased]
  | bitField width, _ => eraseValue_whole (whole_bitField width)

theorem eraseValue_signature : ∀ {signature : List (EncodedValue × Run Char.isDigit)},
    isSpacedSignature signature = true →
      ((PlacedValues.ofSignature signature).flatMap fun part => eraseValue part.1.text) = erasedSignature signature
  | [], _ => rfl
  | (value, _) :: rest, h => by
    rw [isSpacedSignature, Bool.and_eq_true] at h
    have hrest := eraseValue_signature h.2
    rw [erasedSignature, ← eraseValue_text h.1, ← hrest]
    rfl

end

/-! ## Erased values are steady -/

theorem steady_primitive (code : { c : Char // c ∈ primitives }) : Steady [code.1] := by
  have hcodes : primitives.all (fun c => isKept c && isNameCharacter c) = true := by decide
  have hcode := List.all_eq_true.1 hcodes code.1 code.2
  rw [Bool.and_eq_true] at hcode
  exact .code hcode.1 hcode.2 .nil

mutual

/-- Nothing is left to erase in an erased value, wherever it is written. -/
theorem steady_erased : ∀ value : EncodedValue, Steady value.erased
  | primitive code => steady_primitive code
  | qualified _ value => steady_erased value
  | pointer target => .code (by decide) (by decide) (steady_erased target)
  | array count element => .whole (whole_array count element)
  | bareRecord kind name => .whole (whole_bareRecord kind name)
  | record kind name members => .whole (whole_record kind name members)
  | object => .code (by decide) (by decide) .nil
  | objectOf name => .whole (whole_objectOf name)
  | block => .code (by decide) (by decide) (.code (by decide) (by decide) .nil)
  | blockOf signature =>
    .code (by decide) (by decide) (.code (by decide) (by decide) (steady_erasedSignature signature).signature)
  | bitField width => .whole (whole_bitField width)

theorem steady_erasedSignature : ∀ signature : List (EncodedValue × Run Char.isDigit),
    Steady (erasedSignature signature)
  | [] => .nil
  | (value, _) :: rest => (steady_erased value).append (steady_erasedSignature rest)

end

end EncodedValue

/-! ## Sequences of values -/

namespace PlacedValues

/-- Whether values can be told apart where they are written, and those of the signatures of their blocks as well. -/
structure SeparatedThroughout (parts : PlacedValues) : Prop where
  separated : Separated parts
  inside : ∀ part ∈ parts, part.1.isSpaced = true

instance : DecidablePred SeparatedThroughout := fun _ =>
  decidable_of_iff (_ ∧ _) ⟨fun h => ⟨h.1, h.2⟩, fun h => ⟨h.separated, h.inside⟩⟩

/-- What erasure leaves of values with offsets. -/
def erased (parts : PlacedValues) : Encoding := parts.flatMap (·.1.erased)

theorem steady_erased (parts : PlacedValues) : Steady parts.erased := by
  unfold erased
  rw [List.flatMap_def]
  refine Steady.flatten fun s hs => ?_
  obtain ⟨part, -, rfl⟩ := List.mem_map.1 hs
  exact part.1.steady_erased

/-- **Erasing values.**  The erased form of values that can be told apart is the erased forms of the values, one after
the other, and it is its own erased form. -/
theorem erase_text {parts : PlacedValues} (h : parts.SeparatedThroughout) :
    erase parts.text = parts.erased ∧ erase (erase parts.text) = erase parts.text := by
  have herase : erase parts.text = parts.erased := by
    rw [erase_eq_flatMap h.separated]
    exact List.flatMap_congr fun part hpart => EncodedValue.eraseValue_text (h.inside part hpart)
  refine ⟨herase, ?_⟩
  rw [herase]
  exact parts.steady_erased.erase

/-- Without the offsets the first two values are read as one. -/
theorem erase_qualified_values :
    let signature : List (EncodedValue × Run Char.isDigit) :=
      [(.primitive ⟨'v', by decide⟩, ⟨['1', '6'], by decide⟩), (.object, ⟨['8'], by decide⟩),
        (.primitive ⟨'?', by decide⟩, ⟨[], by decide⟩),
        (.qualified ⟨'r', by decide⟩ (.record .struct ⟨['P', 'a', 'i', 'r'], by decide⟩
          [.object, .primitive ⟨'?', by decide⟩]), ⟨[], by decide⟩)]
    let parts : PlacedValues :=
      [(.qualified ⟨'r', by decide⟩ .object, ⟨['8'], by decide⟩),
        (.primitive ⟨'?', by decide⟩, ⟨[], by decide⟩),
        (.qualified ⟨'V', by decide⟩ (.qualified ⟨'n', by decide⟩ (.pointer (.blockOf signature))),
          ⟨['2', '4'], by decide⟩),
        (.array ⟨['4'], by decide⟩ (.pointer (.qualified ⟨'r', by decide⟩ (.primitive ⟨'c', by decide⟩))),
          ⟨[], by decide⟩)]
    parts.SeparatedThroughout ∧ parts.text = "r@8?Vn^@?<v16@8?r{Pair=@?}>24[4^rc]".toList ∧
      erase parts.text = "@?^@?<v@?{Pair=@?}>[4^rc]".toList ∧ erase (erase parts.text) = erase parts.text := by
  intro signature parts
  have hspaced : parts.SeparatedThroughout := by decide +kernel
  obtain ⟨herase, htwice⟩ := erase_text hspaced
  exact ⟨hspaced, by decide +kernel, herase.trans (by decide +kernel), htwice⟩

end PlacedValues

end HeaderCatalog
