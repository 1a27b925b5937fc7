import HeaderCatalog.Proofs.Encoding.Neighbours

set_option autoImplicit false

/-!
# What cutting and erasing leave out

Nothing is asked of a text here: groups and quotes may be left open, and qualifiers may stand before nothing.

Cutting a text leaves out offsets in front of, between and behind its values, and nothing else (`IsPartition`).  Erasing
leaves out qualifiers besides, here and in the signatures of blocks, and keeps every other character in its place
(`erase_sublist_and_filter_eq`).
-/

namespace HeaderCatalog.Encoding

/-! ## Values and the offsets around them -/

/-- Values that make up a text together with the offsets around them. -/
structure IsPartition (s : Encoding) (values : List Encoding) : Prop where
  /-- The text is an offset, and then each value with an offset behind it; any of the offsets may be empty. -/
  covers : ∃ (first : Run isOffset) (offsets : List (Run isOffset)), offsets.length = values.length ∧
    s = first.1 ++ (values.zip offsets).flatMap fun part => part.1 ++ part.2.1
  /-- No value is empty, and none starts like an offset. -/
  starts : ∀ value ∈ values, ∃ c rest, value = c :: rest ∧ isOffset c = false

namespace IsPartition

variable {s : Encoding} {values : List Encoding}

theorem nil : IsPartition [] [] := ⟨⟨⟨[], rfl⟩, [], rfl, rfl⟩, nofun⟩

/-- One more character of the offset in front. -/
theorem offset {c : Char} (hc : isOffset c = true) (h : IsPartition s values) : IsPartition (c :: s) values := by
  obtain ⟨⟨first, hfirst⟩, offsets, hlength, rfl⟩ := h.covers
  have hlonger : (c :: first).all isOffset = true := by rw [List.all_cons, hc, hfirst, Bool.and_self]
  exact ⟨⟨⟨c :: first, hlonger⟩, offsets, hlength, rfl⟩, h.starts⟩

/-- One more value, with what was the offset in front behind it. -/
theorem value {c : Char} {t : Encoding} (hc : isOffset c = false) (h : IsPartition s values) :
    IsPartition (c :: t ++ s) ((c :: t) :: values) := by
  obtain ⟨first, offsets, hlength, rfl⟩ := h.covers
  have hstarts := List.forall_mem_cons.2 ⟨⟨c, t, rfl, hc⟩, h.starts⟩
  refine ⟨⟨⟨[], rfl⟩, first :: offsets, congrArg Nat.succ hlength, ?_⟩, hstarts⟩
  rw [List.nil_append, List.zip_cons_cons, List.flatMap_cons, List.append_assoc]

end IsPartition

/-- The value that a text starts with starts like the text. -/
theorem exists_splitValue_fst_eq_cons (c : Char) (s : Encoding) : ∃ t, (splitValue (c :: s)).1 = c :: t := by
  obtain ⟨d, t, hvalue⟩ := List.exists_cons_of_ne_nil (splitValue_ne_nil c s)
  have happend := splitValue_append (c :: s)
  rw [hvalue, List.cons_append] at happend
  exact ⟨t, by rw [hvalue, (List.cons_eq_cons.1 happend).1]⟩

/-- Cutting a text leaves out offsets only. -/
theorem isPartition_tokens (s : Encoding) : IsPartition s (tokens s) := by
  fun_induction tokens s with
  | case1 => exact .nil
  | case2 c s hoffset ih => exact ih.offset hoffset
  | case3 c s hoffset ih =>
    obtain ⟨t, hvalue⟩ := exists_splitValue_fst_eq_cons c s
    have happend := splitValue_append (c :: s)
    rw [hvalue] at happend ⊢
    have hpartition := ih.value (t := t) (Bool.eq_false_iff.2 hoffset)
    rwa [happend] at hpartition

/-! ## Characters that erasure keeps -/

/-- Whether erasure may leave out a character: those of qualifiers and of offsets. -/
def isErasable (c : Char) : Bool := isQualifier c || isOffset c

/-- The characters of a text that erasure may not leave out. -/
def lasting (s : Encoding) : Encoding := s.filter (!isErasable ·)

@[simp] theorem lasting_append (s t : Encoding) : lasting (s ++ t) = lasting s ++ lasting t := List.filter_append ..

theorem lasting_cons_of_isOffset {c : Char} (h : isOffset c = true) (s : Encoding) : lasting (c :: s) = lasting s :=
  List.filter_cons_of_neg (by simp [isErasable, h])

/-- Cutting a text loses none of its lasting characters. -/
theorem flatMap_lasting_tokens (s : Encoding) : (tokens s).flatMap lasting = lasting s := by
  fun_induction tokens s with
  | case1 => rfl
  | case2 c s hoffset ih => rw [ih, lasting_cons_of_isOffset hoffset]
  | case3 c s _ ih => rw [List.flatMap_cons, ih, ← lasting_append, splitValue_append]

/-- The pointer marks of a value are the lasting characters of its lead. -/
theorem lasting_pointerMarks (value : Encoding) :
    lasting (pointerMarks value) = lasting (value.takeWhile isLead) := by
  rw [lasting, pointerMarks, List.filter_filter]
  refine List.filter_congr fun c hc => ?_
  have hlead : isLead c = true := isLead_of_mem_lead c hc
  by_cases hmark : c = '^'
  · subst hmark
    decide
  · simp_all [isLead, isErasable]

/-- Erasing a value loses none of its lasting characters, if erasing the signature inside it does not. -/
theorem lasting_eraseValue {value : Encoding}
    (h : ∀ inner : Encoding, inner.length < value.length → lasting (erase inner) = lasting inner) :
    lasting (eraseValue value) = lasting value := by
  conv =>
    rhs
    rw [← lead_append_body value, lasting_append, ← lasting_pointerMarks]
  rw [eraseValue, lasting_append, List.append_cancel_left_eq]
  cases hsignature : blockSignature? (body value) with
  | none => rfl
  | some signature =>
    have hlength := (length_blockSignature? hsignature).trans_le (length_body_le value)
    have hblock : ∀ inner, blockOf inner = ['@', '?', '<'] ++ inner ++ ['>'] := fun _ => rfl
    conv =>
      rhs
      rw [eq_blockOf_of_blockSignature? hsignature]
    dsimp only
    rw [hblock, hblock, lasting_append, lasting_append, lasting_append, lasting_append, h signature hlength]

theorem lasting_erase (s : Encoding) : lasting (erase s) = lasting s := by
  -- on the length, because the signature of a block is erased by itself
  induction hlength : s.length using Nat.strong_induction_on generalizing s with
  | h length ih =>
    subst hlength
    have hvalues : ∀ value ∈ tokens s, lasting (eraseValue value) = lasting value := fun value hvalue =>
      lasting_eraseValue fun inner hinner =>
        ih inner.length (hinner.trans_le (length_le_of_mem_tokens hvalue)) inner rfl
    have hfilter : lasting (erase s) = (tokens s).flatMap fun value => lasting (eraseValue value) := by
      rw [erase_eq, lasting, List.filter_flatMap]
      rfl
    calc lasting (erase s)
        = (tokens s).flatMap fun value => lasting (eraseValue value) := hfilter
      _ = (tokens s).flatMap lasting := List.flatMap_congr hvalues
      _ = lasting s := flatMap_lasting_tokens s

/-- **Erasing leaves out qualifiers and offsets only.**  The erased form of a text is written in it from left to right,
and without the characters of qualifiers and offsets the two are the same. -/
theorem erase_sublist_and_filter_eq (s : Encoding) :
    List.Sublist (erase s) s ∧
      (erase s).filter (fun c => !(isQualifier c || isOffset c)) = s.filter fun c => !(isQualifier c || isOffset c) :=
  ⟨erase_sublist s, lasting_erase s⟩

end HeaderCatalog.Encoding
