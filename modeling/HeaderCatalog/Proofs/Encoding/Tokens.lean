import HeaderCatalog.Proofs.Encoding.Grammar

set_option autoImplicit false

/-!
# Cutting an encoding into the values it was written from

`tokens` inverts the writing of `Separated` values (`tokens_text`).  A group is found by counting brackets of one kind
outside quotes, so the proof first shows that the text of a value is balanced for every kind of bracket: the search for
the end of a group passes over it.  From there on each value is split off whole, whatever follows that cannot be read
as its continuation (`CanFollow`).
-/

namespace HeaderCatalog

namespace Encoding

/-! ## Texts that a group is searched through -/

/-- Prepends a text to the first part of a split. -/
def keepAll (s : Encoding) (split : Encoding × Encoding) : Encoding × Encoding := (s ++ split.1, split.2)

@[simp] theorem keepAll_cons (c : Char) (s : Encoding) (split : Encoding × Encoding) :
    keepAll (c :: s) split = keep c (keepAll s split) := rfl

theorem keepAll_append (s t : Encoding) (split : Encoding × Encoding) :
    keepAll (s ++ t) split = keepAll s (keepAll t split) := by
  simp [keepAll]

/-- The search for the end of a group passes over a text, however deep it stands and whatever is behind it. -/
def Passes (opening closing : Char) (s : Encoding) : Prop :=
  ∀ depth rest, splitGroup opening closing (depth + 1) false (s ++ rest) =
    keepAll s (splitGroup opening closing (depth + 1) false rest)

theorem mem_brackets_record (kind : RecordKind) : (kind.opening, kind.closing) ∈ brackets := by
  cases kind <;> decide

section Passes

variable {opening closing : Char}

theorem passes_nil : Passes opening closing [] := fun _ _ => rfl

theorem Passes.append {s t : Encoding} (hs : Passes opening closing s) (ht : Passes opening closing t) :
    Passes opening closing (s ++ t) := by
  intro depth rest
  rw [List.append_assoc, hs, ht, keepAll_append]

/-- A text that holds neither quote nor bracket of the group. -/
theorem passes_plain {s : Encoding} (h : ∀ c ∈ s, c ≠ '"' ∧ c ≠ opening ∧ c ≠ closing) :
    Passes opening closing s := by
  intro depth rest
  induction s with
  | nil => rfl
  | cons c s ih =>
    obtain ⟨hquote, hopening, hclosing⟩ := h c List.mem_cons_self
    rw [List.cons_append, splitGroup, if_neg hquote, if_neg Bool.false_ne_true, if_neg hopening, if_neg hclosing,
      ih fun d hd => h d (List.mem_cons_of_mem c hd), keepAll_cons]

theorem splitGroup_quoted {s : Encoding} (h : ∀ c ∈ s, c ≠ '"') (depth : Nat) (rest : Encoding) :
    splitGroup opening closing depth true (s ++ '"' :: rest) =
      keepAll (s ++ ['"']) (splitGroup opening closing depth false rest) := by
  induction s with
  | nil => rw [List.nil_append, splitGroup, if_pos rfl]; rfl
  | cons c s ih =>
    rw [List.cons_append, splitGroup, if_neg (h c List.mem_cons_self), if_pos rfl,
      ih fun d hd => h d (List.mem_cons_of_mem c hd)]
    rfl

theorem passes_quoted {s : Encoding} (h : ∀ c ∈ s, c ≠ '"') : Passes opening closing ('"' :: s ++ ['"']) := by
  intro depth rest
  rw [List.append_assoc, List.cons_append, List.singleton_append, splitGroup, if_pos rfl, Bool.not_false,
    splitGroup_quoted h]
  rfl

theorem ne_of_mem_brackets (h : (opening, closing) ∈ brackets) :
    opening ≠ '"' ∧ closing ≠ '"' ∧ closing ≠ opening := by
  simp only [brackets, List.mem_cons, Prod.mk.injEq, List.not_mem_nil, or_false] at h
  rcases h with ⟨rfl, rfl⟩ | ⟨rfl, rfl⟩ | ⟨rfl, rfl⟩ | ⟨rfl, rfl⟩ <;> decide

/-- Two pairs of brackets are the same, or have no bracket in common. -/
theorem eq_or_disjoint_of_mem_brackets {first last : Char} (h : (opening, closing) ∈ brackets)
    (hinner : (first, last) ∈ brackets) :
    (first = opening ∧ last = closing) ∨
      (first ≠ opening ∧ first ≠ closing ∧ last ≠ opening ∧ last ≠ closing) := by
  simp only [brackets, List.mem_cons, Prod.mk.injEq, List.not_mem_nil, or_false] at h hinner
  rcases h with ⟨rfl, rfl⟩ | ⟨rfl, rfl⟩ | ⟨rfl, rfl⟩ | ⟨rfl, rfl⟩ <;>
    rcases hinner with ⟨rfl, rfl⟩ | ⟨rfl, rfl⟩ | ⟨rfl, rfl⟩ | ⟨rfl, rfl⟩ <;> decide

/-- At the bracket that closes it a group ends. -/
theorem splitGroup_closing (h : (opening, closing) ∈ brackets) {s : Encoding} (hs : Passes opening closing s)
    (rest : Encoding) : splitGroup opening closing 1 false (s ++ [closing] ++ rest) = (s ++ [closing], rest) := by
  obtain ⟨-, hquote, hne⟩ := ne_of_mem_brackets h
  rw [List.append_assoc, hs 0, List.singleton_append, splitGroup, if_neg hquote, if_neg Bool.false_ne_true,
    if_neg hne, if_pos rfl, if_pos (Nat.le_refl 1)]
  rfl

/-- A group inside a group: one of the same brackets is counted, one of others is passed over. -/
theorem Passes.enclosed (h : (opening, closing) ∈ brackets) {first last : Char} (hinner : (first, last) ∈ brackets)
    {s : Encoding} (hs : Passes opening closing s) : Passes opening closing (first :: s ++ [last]) := by
  rcases eq_or_disjoint_of_mem_brackets h hinner with ⟨rfl, rfl⟩ | ⟨hfirst, hfirst', hlast, hlast'⟩
  · -- The count goes up at the first bracket and is back at the last one.
    obtain ⟨hopening, hclosing, hne⟩ := ne_of_mem_brackets h
    intro depth rest
    rw [List.append_assoc, List.cons_append, splitGroup, if_neg hopening, if_neg Bool.false_ne_true, if_pos rfl,
      hs (depth + 1), List.singleton_append, splitGroup, if_neg hclosing, if_neg Bool.false_ne_true, if_neg hne,
      if_pos rfl, if_neg (by omega), Nat.add_sub_cancel]
    simp [keepAll, keep]
  · obtain ⟨hquote, hquote', -⟩ := ne_of_mem_brackets hinner
    have hone : ∀ c, c ≠ '"' → c ≠ opening → c ≠ closing → Passes opening closing [c] := by
      intro c hc hcOpening hcClosing
      refine passes_plain fun d hd => ?_
      rw [List.mem_singleton.1 hd]
      exact ⟨hc, hcOpening, hcClosing⟩
    exact ((hone first hquote hfirst hfirst').append hs).append (hone last hquote' hlast hlast')

end Passes

/-! ## Splitting off a value -/

theorem splitValue_lead {c : Char} (h : isLead c = true) (rest : Encoding) :
    splitValue (c :: rest) = keep c (splitValue rest) := by
  simp [splitValue, keep, List.takeWhile_cons_of_pos h, List.dropWhile_cons_of_pos h]

theorem splitValue_body {c : Char} (h : isLead c = false) (rest : Encoding) :
    splitValue (c :: rest) = splitBody (c :: rest) := by
  have hlead : ¬isLead c = true := by simp [h]
  simp [splitValue, List.takeWhile_cons_of_neg hlead, List.dropWhile_cons_of_neg hlead]

theorem splitQuote_closing {s : Encoding} (h : ∀ c ∈ s, c ≠ '"') (rest : Encoding) :
    splitQuote (s ++ '"' :: rest) = (s ++ ['"'], rest) := by
  induction s with
  | nil => rw [List.nil_append, splitQuote, if_pos rfl]; rfl
  | cons c s ih =>
    rw [List.cons_append, splitQuote, if_neg (h c List.mem_cons_self), ih fun d hd => h d (List.mem_cons_of_mem c hd)]
    rfl

/-- A text that does not start with an offset is one value if nothing is left when the first value is split off. -/
theorem tokens_eq_singleton {c : Char} {s : Encoding} (hoffset : isOffset c = false) :
    tokens (c :: s) = [c :: s] ↔ (splitValue (c :: s)).2 = [] := by
  have happend := splitValue_append (c :: s)
  rw [tokens_value hoffset]
  constructor
  · intro h
    rw [(List.cons_eq_cons.1 h).1] at happend
    exact List.append_right_eq_self.1 happend
  · intro h
    rw [h, List.append_nil] at happend
    rw [h, tokens_nil, happend]

theorem splitBody_primitive {c : Char} (h : c ∈ primitives) (rest : Encoding) :
    splitBody (c :: rest) = ([c], rest) := by
  simp only [primitives, List.mem_cons, List.not_mem_nil, or_false] at h
  rcases h with rfl | rfl | rfl | rfl | rfl | rfl | rfl | rfl | rfl | rfl | rfl | rfl | rfl | rfl | rfl | rfl | rfl |
    rfl | rfl | rfl | rfl <;> rfl

end Encoding

open Encoding

namespace EncodedValue

/-! ## The texts of values are balanced -/

/-- The characters that a search for the end of a group may look at. -/
def searched : List Char := ['"', '{', '}', '(', ')', '[', ']', '<', '>']

theorem isNameCharacter_iff (c : Char) : isNameCharacter c = true ↔ c ∉ searched := by
  simp [isNameCharacter, brackets, searched, and_assoc]

/-- Characters of a class without those that are searched for could stand in a name. -/
theorem isNameCharacter_of {allowed : Char → Bool} (h : searched.any allowed = false) {c : Char}
    (hc : allowed c = true) : isNameCharacter c = true := by
  rw [isNameCharacter_iff]
  intro hmem
  exact List.any_eq_false.1 h c hmem hc

section Balanced

variable {opening closing : Char} (h : (opening, closing) ∈ brackets)

include h

theorem passes_name (name : Run isNameCharacter) : Passes opening closing name.1 := by
  refine passes_plain fun c hc => ?_
  have hname := name.allowed_of_mem hc
  unfold isNameCharacter at hname
  rw [Bool.and_eq_true, List.all_eq_true, bne_iff_ne] at hname
  have hpair := hname.2 (opening, closing) h
  rw [Bool.and_eq_true, bne_iff_ne, bne_iff_ne] at hpair
  exact ⟨hname.1, hpair⟩

theorem passes_cons {c : Char} (hc : isNameCharacter c = true) {s : Encoding} (hs : Passes opening closing s) :
    Passes opening closing (c :: s) :=
  (passes_name h ⟨[c], by simpa using hc⟩).append hs

theorem passes_digits (digits : Run Char.isDigit) : Passes opening closing digits.1 :=
  passes_name h ⟨digits.1, List.all_eq_true.2 fun _ hc => isNameCharacter_of (by decide) (digits.allowed_of_mem hc)⟩

theorem passes_record (kind : RecordKind) {s : Encoding} (hs : Passes opening closing s) :
    Passes opening closing (kind.opening :: s ++ [kind.closing]) :=
  hs.enclosed h (mem_brackets_record kind)

end Balanced

mutual

/-- The search for the end of a group passes over a value. -/
theorem passes_text {opening closing : Char} (h : (opening, closing) ∈ brackets) :
    ∀ value : EncodedValue, Passes opening closing value.text
  | primitive code => by
    have hcodes : primitives.all isNameCharacter = true := by decide
    exact passes_cons h (List.all_eq_true.1 hcodes code.1 code.2) passes_nil
  | qualified qualifier value => passes_cons h (isNameCharacter_of (by decide) qualifier.2) (passes_text h value)
  | pointer target => passes_cons h (by decide) (passes_text h target)
  | array count element => ((passes_digits h count).append (passes_text h element)).enclosed h (by decide)
  | bareRecord kind name => passes_record h kind (passes_name h name)
  | record kind name members =>
    passes_record h kind ((passes_name h name).append (passes_cons h (by decide) (passes_textOfMembers h members)))
  | object => passes_cons h (by decide) passes_nil
  | objectOf name => passes_cons h (by decide) (passes_quoted fun _ hc => bne_iff_ne.1 (name.allowed_of_mem hc))
  | block => passes_cons h (by decide) (passes_cons h (by decide) passes_nil)
  | blockOf signature =>
    passes_cons h (by decide)
      (passes_cons h (by decide) ((passes_textOfSignature h signature).enclosed h (by decide)))
  | bitField width => passes_cons h (by decide) (passes_digits h width)

theorem passes_textOfMembers {opening closing : Char} (h : (opening, closing) ∈ brackets) :
    ∀ members : List EncodedValue, Passes opening closing (textOfMembers members)
  | [] => passes_nil
  | value :: rest => (passes_text h value).append (passes_textOfMembers h rest)

theorem passes_textOfSignature {opening closing : Char} (h : (opening, closing) ∈ brackets) :
    ∀ signature : List (EncodedValue × Run Char.isDigit), Passes opening closing (textOfSignature signature)
  | [] => passes_nil
  | (value, digits) :: rest =>
    ((passes_text h value).append (passes_digits h digits)).append (passes_textOfSignature h rest)

end

/-! ## Values are split off whole -/

/-- A text that is not read as a continuation of the value before it. -/
structure CanFollow (value : EncodedValue) (rest : Encoding) : Prop where
  bitField : value.endsInBitField = true → ∀ c, rest.head? = some c → c.isDigit = false
  object : value.endsInObject = true → rest.head? ≠ some '?' ∧ rest.head? ≠ some '"'
  block : value.endsInBlock = true → rest.head? ≠ some '<'

theorem splitBody_object {rest : Encoding} (hunknown : rest.head? ≠ some '?') (hquote : rest.head? ≠ some '"') :
    splitBody ('@' :: rest) = (['@'], rest) := by
  unfold splitBody
  split <;> grind

theorem splitBody_block {rest : Encoding} (h : rest.head? ≠ some '<') :
    splitBody ('@' :: '?' :: rest) = (['@', '?'], rest) := by
  unfold splitBody
  split <;> grind

theorem splitBody_bitField {digits rest : Encoding} (hdigits : ∀ c ∈ digits, c.isDigit = true)
    (hrest : ∀ c, rest.head? = some c → c.isDigit = false) :
    splitBody ('b' :: (digits ++ rest)) = ('b' :: digits, rest) := by
  have htake : rest.takeWhile Char.isDigit = [] ∧ rest.dropWhile Char.isDigit = rest := by
    cases rest with
    | nil => exact ⟨rfl, rfl⟩
    | cons c rest =>
      have hc : ¬c.isDigit = true := by simp [hrest c rfl]
      exact ⟨List.takeWhile_cons_of_neg hc, List.dropWhile_cons_of_neg hc⟩
  rw [splitBody, List.takeWhile_append_of_pos hdigits, List.dropWhile_append_of_pos hdigits, htake.1, htake.2,
    List.append_nil]

theorem splitValue_record (kind : RecordKind) {s : Encoding} (hs : Passes kind.opening kind.closing s)
    (rest : Encoding) : splitValue (kind.opening :: s ++ [kind.closing] ++ rest) =
      (kind.opening :: s ++ [kind.closing], rest) := by
  have hlead : isLead kind.opening = false := by cases kind <;> decide
  have hbody : ∀ t, splitBody (kind.opening :: t) =
      keep kind.opening (splitGroup kind.opening kind.closing 1 false t) := by cases kind <;> exact fun _ => rfl
  rw [List.cons_append, List.cons_append, splitValue_body hlead, hbody,
    splitGroup_closing (mem_brackets_record kind) hs rest]
  rfl

/-- A value is split off a text that starts with it, if what follows leaves it alone.  A qualifier or a pointer mark
leaves the question to the value behind it; a group is closed by the balance of its contents. -/
theorem splitValue_text {rest : Encoding} :
    ∀ {value : EncodedValue}, value.CanFollow rest → splitValue (value.text ++ rest) = (value.text, rest)
  | primitive code, _ => by
    have hcodes : primitives.any isLead = false := by decide
    have hlead : isLead code.1 = false := by simpa using List.any_eq_false.1 hcodes code.1 code.2
    rw [text, List.singleton_append, splitValue_body hlead, splitBody_primitive code.2]
  | qualified qualifier value, h => by
    have hlead : isLead qualifier.1 = true := by simp [isLead, qualifier.2]
    have hvalue : value.CanFollow rest := ⟨h.bitField, h.object, h.block⟩
    rw [text, List.cons_append, splitValue_lead hlead, splitValue_text hvalue]
    rfl
  | pointer target, h => by
    have htarget : target.CanFollow rest := ⟨h.bitField, h.object, h.block⟩
    rw [text, List.cons_append, splitValue_lead (by decide), splitValue_text htarget]
    rfl
  | array count element, _ => by
    have hgroup := splitGroup_closing (by decide : ('[', ']') ∈ brackets)
      ((passes_digits (by decide) count).append (passes_text (by decide) element)) rest
    rw [text, List.cons_append, List.cons_append, splitValue_body (by decide), splitBody, hgroup]
    rfl
  | bareRecord kind name, _ => splitValue_record kind (passes_name (mem_brackets_record kind) name) rest
  | record kind name members, _ => by
    refine splitValue_record kind ((passes_name (mem_brackets_record kind) name).append ?_) rest
    exact passes_cons (mem_brackets_record kind) (by decide) (passes_textOfMembers (mem_brackets_record kind) members)
  | object, h => by
    obtain ⟨hunknown, hquote⟩ := h.object rfl
    rw [text, List.singleton_append, splitValue_body (by decide), splitBody_object hunknown hquote]
  | objectOf name, _ => by
    have hname := splitQuote_closing (fun _ hc => bne_iff_ne.1 (name.allowed_of_mem hc)) rest
    rw [text, List.append_assoc, List.cons_append, List.cons_append, List.singleton_append,
      splitValue_body (by decide), splitBody, hname]
    rfl
  | block, h => by
    rw [text, List.cons_append, List.singleton_append, splitValue_body (by decide), splitBody_block (h.block rfl)]
  | blockOf signature, _ => by
    have hgroup := splitGroup_closing (by decide : ('<', '>') ∈ brackets)
      (passes_textOfSignature (by decide) signature) rest
    rw [text, List.append_assoc, List.cons_append, List.cons_append, List.cons_append, splitValue_body (by decide),
      splitBody, ← List.append_assoc, hgroup]
    rfl
  | bitField width, h => by
    have hwidth : ∀ c ∈ width.1, c.isDigit = true := fun _ hc => width.allowed_of_mem hc
    rw [text, List.cons_append, splitValue_body (by decide), splitBody_bitField hwidth (h.bitField rfl)]

end EncodedValue

/-! ## Sequences of values -/

namespace PlacedValues

open EncodedValue

theorem tokens_offset_append (offset : Run isOffset) (rest : Encoding) :
    tokens (offset.1 ++ rest) = tokens rest := by
  obtain ⟨offset, hoffset⟩ := offset
  induction offset with
  | nil => rfl
  | cons c offset ih =>
    rw [List.all_cons, Bool.and_eq_true] at hoffset
    rw [List.cons_append, tokens_offset hoffset.1]
    exact ih hoffset.2

theorem tokens_value_append {value : EncodedValue} {rest : Encoding} (h : value.CanFollow rest) :
    tokens (value.text ++ rest) = value.text :: tokens rest := by
  obtain ⟨c, tail, htext, hstart⟩ := value.exists_text_eq_cons
  have hoffset : isOffset c = false := by
    unfold canStart at hstart
    simp only [Bool.and_eq_true, Bool.not_eq_true'] at hstart
    exact hstart.1.1
  have hsplit := splitValue_text h
  rw [htext, List.cons_append] at hsplit ⊢
  rw [tokens_value hoffset, hsplit]

/-- What is written after an offset that is not empty, and what is written after none but does not start with a
question mark, leaves the value before it alone. -/
theorem canFollow_offset {value : EncodedValue} {offset : Run isOffset} {rest : Encoding}
    (hbitField : value.endsInBitField = true → offset.1 = [])
    (hobject : value.endsInObject = true → offset.1 = [] → rest.head? ≠ some '?')
    (hrest : ∀ c, rest.head? = some c → canStart c = true) : value.CanFollow (offset.1 ++ rest) := by
  have hstart : ∀ c, rest.head? = some c → c.isDigit = false ∧ c ≠ '"' ∧ c ≠ '<' := by
    intro c hc
    have hcan := hrest c hc
    simp only [canStart, isOffset, Bool.and_eq_true, Bool.not_eq_true', Bool.or_eq_false_iff, bne_iff_ne] at hcan
    exact ⟨hcan.1.1.1, hcan.1.2, hcan.2⟩
  obtain ⟨offset, hoffset⟩ := offset
  cases offset with
  | nil =>
    refine ⟨fun _ c hc => (hstart c hc).1, fun hends => ⟨hobject hends rfl, fun hc => ?_⟩, fun _ hc => ?_⟩
    · exact (hstart _ hc).2.1 rfl
    · exact (hstart _ hc).2.2 rfl
  | cons c offset =>
    have hc : isOffset c = true := List.all_eq_true.1 hoffset c List.mem_cons_self
    have hne : c ≠ '?' ∧ c ≠ '"' ∧ c ≠ '<' := by
      refine ⟨?_, ?_, ?_⟩ <;> rintro rfl <;> revert hc <;> decide
    refine ⟨fun hends => absurd (hbitField hends) (List.cons_ne_nil c offset), fun _ => ?_, fun _ => ?_⟩
    · exact ⟨fun heq => hne.1 (Option.some.inj heq), fun heq => hne.2.1 (Option.some.inj heq)⟩
    · exact fun heq => hne.2.2 (Option.some.inj heq)

theorem head?_text_cons (part : EncodedValue × Run isOffset) (rest : PlacedValues) :
    (text (part :: rest)).head? = part.1.text.head? := by
  obtain ⟨c, tail, htext, -⟩ := part.1.exists_text_eq_cons
  rw [text, List.flatMap_cons, htext]
  rfl

theorem Separated.tail {part : EncodedValue × Run isOffset} {rest : PlacedValues} (h : Separated (part :: rest)) :
    Separated rest :=
  ⟨fun next hnext => h.bitField next (List.mem_cons_of_mem part hnext), h.object.tail⟩

/-- In a separated sequence what stands behind the first value leaves it alone. -/
theorem Separated.canFollow {part : EncodedValue × Run isOffset} {rest : PlacedValues}
    (h : Separated (part :: rest)) : part.1.CanFollow (part.2.1 ++ text rest) := by
  refine canFollow_offset (h.bitField part List.mem_cons_self) ?_ ?_
  · intro hends hempty
    cases rest with
    | nil => exact fun heq => nomatch heq
    | cons next rest =>
      rw [head?_text_cons]
      exact (List.isChain_cons_cons.1 h.object).1 hends hempty
  · intro c hc
    cases rest with
    | nil => cases hc
    | cons next rest =>
      obtain ⟨d, tail, htext, hstart⟩ := next.1.exists_text_eq_cons
      rw [head?_text_cons, htext] at hc
      cases hc
      exact hstart

theorem tokens_text {parts : PlacedValues} (h : Separated parts) :
    tokens parts.text = parts.map fun part => part.1.text := by
  induction parts with
  | nil => exact tokens_nil
  | cons part rest ih =>
    have hfollow := h.canFollow
    change tokens ((part.1.text ++ part.2.1) ++ text rest) = _
    rw [List.append_assoc, tokens_value_append hfollow, tokens_offset_append, ih h.tail, List.map_cons]

/-- **Cutting undoes writing.**  The tokens of separated values are their texts, and the arguments of a method are read
back as they were written, qualifiers and all. -/
theorem tokens_of_separated :
    (∀ parts : PlacedValues, Separated parts → tokens parts.text = parts.map fun part => part.1.text) ∧
    (∀ (result receiver selector : Run isOffset) (returns : EncodedValue) (arguments : PlacedValues),
      Separated (ofMethod result receiver selector returns arguments) →
        methodArguments (ofMethod result receiver selector returns arguments).text =
          arguments.map fun part => part.1.text) := by
  refine ⟨fun parts h => tokens_text h, fun result receiver selector returns arguments h => ?_⟩
  unfold methodArguments
  rw [tokens_text h]
  rfl

/-- The values of `@"NSString"16r^{Pair=@?}24@?<v@?b3>32@`. -/
def sample : PlacedValues :=
  [(.objectOf ⟨['N', 'S', 'S', 't', 'r', 'i', 'n', 'g'], by decide⟩, ⟨['1', '6'], by decide⟩),
    (.qualified ⟨'r', by decide⟩ (.pointer (.record .struct ⟨['P', 'a', 'i', 'r'], by decide⟩
      [.object, .primitive ⟨'?', by decide⟩])), ⟨['2', '4'], by decide⟩),
    (.blockOf [(.primitive ⟨'v', by decide⟩, ⟨[], by decide⟩), (.block, ⟨[], by decide⟩),
      (.bitField ⟨['3'], by decide⟩, ⟨[], by decide⟩)], ⟨['3', '2'], by decide⟩),
    (.object, ⟨[], by decide⟩)]

theorem tokens_sample :
    Separated sample ∧ tokens sample.text = sample.map (fun part => part.1.text) ∧
    methodArguments (ofMethod ⟨['4', '0'], by decide⟩ ⟨['0'], by decide⟩ ⟨['8'], by decide⟩
      (.primitive ⟨'v', by decide⟩) sample).text = sample.map fun part => part.1.text := by
  obtain ⟨htokens, harguments⟩ := tokens_of_separated
  exact ⟨by decide, htokens sample (by decide), harguments _ _ _ _ sample (by decide)⟩

end PlacedValues

end HeaderCatalog
