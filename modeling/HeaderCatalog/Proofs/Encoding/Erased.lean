import HeaderCatalog.Encoding.Erasure
import HeaderCatalog.Proofs.Encoding.Tokens

set_option autoImplicit false

/-!
# Encodings that erasure leaves alone

Erasure cuts a text into tokens, and where the cuts fall depends on what stands next to what: a question mark behind an
object makes it a block.  Whether anything is erased does not depend on that.  In a *settled* text there are no
qualifiers and no offsets outside groups, quotes and bit fields, and every such text is its own erased form, whatever
its tokens are (`erase_of_settled`).

The signature of a block is erased by itself.  Where it ends is found by counting angle brackets alone, so the groups of
a settled text have balanced contents: then the search ends between the parts of the text, and what it cuts off is
settled again (`Settled.splitGroup`).
-/

namespace HeaderCatalog.Encoding

/-! ## Balanced texts -/

/-- The search for the end of a group of any kind passes over a text. -/
def Balanced (s : Encoding) : Prop := ∀ pair ∈ brackets, Passes pair.1 pair.2 s

namespace Balanced

variable {s t : Encoding}

theorem nil : Balanced [] := fun _ _ => passes_nil

theorem append (hs : Balanced s) (ht : Balanced t) : Balanced (s ++ t) :=
  fun pair hpair => (hs pair hpair).append (ht pair hpair)

theorem plain (h : ∀ c ∈ s, isNameCharacter c = true) : Balanced s :=
  fun _ hpair => EncodedValue.passes_name hpair ⟨s, List.all_eq_true.2 h⟩

theorem cons {c : Char} (hc : isNameCharacter c = true) (hs : Balanced s) : Balanced (c :: s) :=
  fun _ hpair => EncodedValue.passes_cons hpair hc (hs _ hpair)

theorem digits (h : ∀ c ∈ s, c.isDigit = true) : Balanced s :=
  plain fun c hc => EncodedValue.isNameCharacter_of (by decide) (h c hc)

theorem quoted (h : ∀ c ∈ s, c ≠ '"') : Balanced ('"' :: s ++ ['"']) := fun _ _ => passes_quoted h

theorem enclosed {first last : Char} (h : (first, last) ∈ brackets) (hs : Balanced s) :
    Balanced (first :: s ++ [last]) :=
  fun _ hpair => (hs _ hpair).enclosed hpair h

end Balanced

/-! ## Settled texts -/

/-- The brackets of records, unions and arrays. -/
def keptGroups : List (Char × Char) := [('{', '}'), ('(', ')'), ('[', ']')]

theorem keptGroups_subset_brackets : keptGroups ⊆ brackets := by decide

theorem mem_keptGroups_record (kind : RecordKind) : (kind.opening, kind.closing) ∈ keptGroups := by
  cases kind <;> decide

/-- A text that is kept letter by letter because of what stands around it. -/
inductive Whole : Encoding → Prop
  | group {first last : Char} {inner : Encoding} (hpair : (first, last) ∈ keptGroups) (hinner : Balanced inner) :
      Whole (first :: inner ++ [last])
  /-- An object of a class. -/
  | objectOf {name : Encoding} (hname : ∀ c ∈ name, c ≠ '"') : Whole ('@' :: ('"' :: name ++ ['"']))
  | bitField {digits : Encoding} (hdigits : ∀ c ∈ digits, c.isDigit = true) : Whole ('b' :: digits)

/-- Whether a character is kept where it stands by itself: it is neither qualifier nor offset, and starts neither a
group that is kept as a whole nor a quote nor a bit field. -/
def isKept (c : Char) : Bool :=
  !isQualifier c && !isOffset c && c != '"' && c != '{' && c != '(' && c != '[' && c != 'b'

/-- A text without qualifiers and offsets outside groups, quotes and bit fields. -/
inductive Settled : Encoding → Prop
  | nil : Settled []
  | code {c : Char} {s : Encoding} (hc : isKept c = true) (hs : Settled s) : Settled (c :: s)
  | whole {part s : Encoding} (hpart : Whole part) (hs : Settled s) : Settled (part ++ s)

namespace Whole

variable {part : Encoding}

theorem balanced (h : Whole part) : Balanced part := by
  cases h with
  | group hpair hinner => exact hinner.enclosed (keptGroups_subset_brackets hpair)
  | objectOf hname => exact .cons (by decide) (.quoted hname)
  | bitField hdigits => exact .cons (by decide) (.digits hdigits)

/-- The characters that a whole text may start with. -/
def starts : List Char := ['{', '(', '[', '@', 'b']

theorem exists_eq_cons (h : Whole part) : ∃ c ∈ starts, ∃ rest, part = c :: rest := by
  cases h with
  | group hpair _ =>
    have hstarts : ∀ pair ∈ keptGroups, pair.1 ∈ starts := by decide
    exact ⟨_, hstarts _ hpair, _, rfl⟩
  | objectOf _ => exact ⟨'@', by decide, _, rfl⟩
  | bitField _ => exact ⟨'b', by decide, _, rfl⟩

/-- No whole text ends in an angle bracket. -/
theorem getLast?_ne (h : Whole part) : part.getLast? ≠ some '>' := by
  cases h with
  | group hpair _ =>
    have hlast : ∀ pair ∈ keptGroups, some pair.2 ≠ some '>' := by decide
    rw [List.getLast?_concat]
    exact hlast _ hpair
  | @objectOf name _ =>
    rw [show '@' :: ('"' :: name ++ ['"']) = '@' :: '"' :: name ++ ['"'] from rfl, List.getLast?_concat]
    decide
  | bitField hdigits =>
    intro hlast
    rcases List.mem_cons.1 (List.mem_of_getLast? hlast) with hmem | hmem
    · cases hmem
    · cases hdigits _ hmem

end Whole

namespace Settled

variable {c : Char} {s t : Encoding}

theorem append (hs : Settled s) (ht : Settled t) : Settled (s ++ t) := by
  induction hs with
  | nil => exact ht
  | code hc _ ih => exact .code hc ih
  | whole hpart _ ih =>
    rw [List.append_assoc]
    exact .whole hpart ih

/-- A settled text starts neither with an offset nor with a quote. -/
theorem start (h : Settled (c :: s)) : isOffset c = false ∧ c ≠ '"' := by
  generalize ht : c :: s = t at h
  cases h with
  | nil => cases ht
  | code hc _ =>
    cases ht
    simp only [isKept, Bool.and_eq_true, Bool.not_eq_true', bne_iff_ne] at hc
    exact ⟨hc.1.1.1.1.1.2, hc.1.1.1.1.2⟩
  | whole hpart _ =>
    obtain ⟨d, hd, rest, rfl⟩ := hpart.exists_eq_cons
    cases ht
    have hstarts : Whole.starts.all (fun c => !isOffset c && c != '"') = true := by decide
    simpa using List.all_eq_true.1 hstarts c hd

/-- What stands behind a code of one character is settled.  The code of an object may be followed by a quote. -/
theorem tail (h : Settled (c :: s)) (hc : isKept c = true) (hobject : c ≠ '@') : Settled s := by
  generalize ht : c :: s = t at h
  cases h with
  | nil => cases ht
  | code _ hs => cases ht; exact hs
  | whole hpart _ =>
    obtain ⟨d, hd, rest, rfl⟩ := hpart.exists_eq_cons
    cases ht
    have hstarts : Whole.starts.all (fun c => !isKept c || c == '@') = true := by decide
    have hstart := List.all_eq_true.1 hstarts c hd
    simp [hc, hobject] at hstart

/-- Where an angle bracket is closed a settled text falls into two. -/
theorem splitGroup (h : Settled s) (depth : Nat) :
    Settled (splitGroup '<' '>' (depth + 1) false s).1 ∧ Settled (splitGroup '<' '>' (depth + 1) false s).2 := by
  induction h generalizing depth with
  | nil => exact ⟨.nil, .nil⟩
  | @code c s hc hs ih =>
    rw [Encoding.splitGroup, if_neg (code hc hs).start.2, if_neg Bool.false_ne_true]
    split
    · exact ⟨.code hc (ih (depth + 1)).1, (ih (depth + 1)).2⟩
    split
    · split
      · exact ⟨.code hc .nil, hs⟩
      · obtain ⟨deeper, rfl⟩ : ∃ deeper, depth = deeper + 1 := ⟨depth - 1, by omega⟩
        exact ⟨.code hc (ih deeper).1, (ih deeper).2⟩
    · exact ⟨.code hc (ih depth).1, (ih depth).2⟩
  | whole hpart _ ih =>
    rw [hpart.balanced ('<', '>') (by decide) depth]
    exact ⟨.whole hpart (ih depth).1, (ih depth).2⟩

/-- A settled text stays settled without an angle bracket at its end. -/
theorem dropLast (h : Settled s) (hlast : s.getLast? = some '>') : Settled s.dropLast := by
  induction h with
  | nil => exact .nil
  | @code c s hc _ ih =>
    cases s with
    | nil => exact .nil
    | cons d s =>
      rw [List.getLast?_cons_cons] at hlast
      exact .code hc (ih hlast)
  | @whole part s hpart _ ih =>
    cases s with
    | nil => exact absurd (List.append_nil part ▸ hlast) hpart.getLast?_ne
    | cons d s =>
      rw [List.getLast?_append_cons] at hlast
      rw [List.dropLast_append_cons]
      exact .whole hpart (ih hlast)

end Settled

/-! ## Erasing value by value -/

@[simp] theorem erase_nil : erase [] = [] := by
  rw [erase_eq, tokens_nil, List.flatMap_nil]

/-- The erased form of a text that starts with a value. -/
theorem erase_cons {c : Char} {t value rest : Encoding} (hoffset : isOffset c = false)
    (hsplit : splitValue (c :: t) = (value, rest)) : erase (c :: t) = eraseValue value ++ erase rest := by
  rw [erase_eq, tokens_value hoffset, hsplit, List.flatMap_cons, ← erase_eq]

/-- A value without lead that is no block with a signature is kept. -/
theorem eraseValue_body {c : Char} {t : Encoding} (hlead : isLead c = false)
    (hblock : blockSignature? (c :: t) = none) : eraseValue (c :: t) = c :: t := by
  have hlead : ¬isLead c = true := by simp [hlead]
  rw [eraseValue, pointerMarks, body, List.takeWhile_cons_of_neg hlead, List.dropWhile_cons_of_neg hlead, hblock]
  rfl

theorem blockSignature?_of_ne {c : Char} {t : Encoding} (h : c ≠ '@') : blockSignature? (c :: t) = none := by
  simp [blockSignature?, h]

/-- The mark of a pointer is kept, in front of what is left of the value behind it. -/
theorem eraseValue_pointer (value : Encoding) : eraseValue ('^' :: value) = '^' :: eraseValue value := rfl

/-- A pointer mark is kept, and the text behind it is erased as if the mark were not there. -/
theorem erase_pointer {s : Encoding} (h : ∀ c, s.head? = some c → isOffset c = false) :
    erase ('^' :: s) = '^' :: erase s := by
  rw [erase_cons (by decide) (splitValue_lead (by decide) s), eraseValue_pointer, List.cons_append]
  cases s with
  | nil =>
    rw [show splitValue [] = ([], []) from rfl, erase_nil]
    rfl
  | cons c s => rw [erase_cons (h c rfl) (Prod.eta (splitValue (c :: s))).symm]

/-- A code of one character is kept. -/
theorem erase_code {c : Char} (hc : isKept c = true) (hpointer : c ≠ '^') (hobject : c ≠ '@') (s : Encoding) :
    erase (c :: s) = c :: erase s := by
  simp only [isKept, Bool.and_eq_true, Bool.not_eq_true', bne_iff_ne] at hc
  obtain ⟨⟨⟨⟨⟨⟨hqualifier, hoffset⟩, -⟩, hbrace⟩, hparen⟩, hsquare⟩, hbit⟩ := hc
  have hlead : isLead c = false := by simp [isLead, hqualifier, hpointer]
  have hbody : splitBody (c :: s) = ([c], s) := by
    unfold splitBody
    split <;> simp_all
  rw [erase_cons hoffset ((splitValue_body hlead s).trans hbody), eraseValue_body hlead (blockSignature?_of_ne hobject)]
  rfl

/-- A group that is kept is split off as a value. -/
theorem splitValue_group {first last : Char} (hpair : (first, last) ∈ keptGroups) {inner : Encoding}
    (hinner : Balanced inner) (rest : Encoding) :
    splitValue (first :: inner ++ [last] ++ rest) = (first :: inner ++ [last], rest) := by
  have hlead : ∀ pair ∈ keptGroups, isLead pair.1 = false := by decide
  have hbody : ∀ t, splitBody (first :: t) = keep first (splitGroup first last 1 false t) := by
    simp only [keptGroups, List.mem_cons, Prod.mk.injEq, List.not_mem_nil, or_false] at hpair
    rcases hpair with ⟨rfl, rfl⟩ | ⟨rfl, rfl⟩ | ⟨rfl, rfl⟩ <;> exact fun _ => rfl
  have hbrackets := keptGroups_subset_brackets hpair
  rw [List.cons_append, List.cons_append, splitValue_body (hlead _ hpair), hbody,
    splitGroup_closing hbrackets (hinner _ hbrackets)]
  rfl

/-- A whole text is split off as a value, if the digits of a bit field do not run on. -/
theorem splitValue_whole {part : Encoding} (hpart : Whole part) {rest : Encoding}
    (hrest : ∀ c, rest.head? = some c → c.isDigit = false) : splitValue (part ++ rest) = (part, rest) := by
  cases hpart with
  | group hpair hinner => exact splitValue_group hpair hinner rest
  | @objectOf name hname =>
    have hfollow : (EncodedValue.objectOf ⟨name, by simpa using hname⟩).CanFollow rest := ⟨nofun, nofun, nofun⟩
    exact EncodedValue.splitValue_text hfollow
  | @bitField digits hdigits =>
    have hfollow : (EncodedValue.bitField ⟨digits, by simpa using hdigits⟩).CanFollow rest :=
      ⟨fun _ => hrest, nofun, nofun⟩
    exact EncodedValue.splitValue_text hfollow

/-- A block ends with its signature, whatever comes next. -/
theorem splitValue_blockOf {s : Encoding} (hs : Balanced s) (rest : Encoding) :
    splitValue (blockOf s ++ rest) = (blockOf s, rest) := by
  have hgroup := splitGroup_closing (by decide) (hs ('<', '>') (by decide)) rest
  rw [show blockOf s ++ rest = '@' :: '?' :: '<' :: (s ++ ['>'] ++ rest) from rfl, splitValue_body (by decide),
    splitBody, hgroup]
  rfl

theorem eraseValue_whole {part : Encoding} (hpart : Whole part) : eraseValue part = part := by
  cases hpart with
  | group hpair _ =>
    have hstart : ∀ pair ∈ keptGroups, isLead pair.1 = false ∧ pair.1 ≠ '@' := by decide
    obtain ⟨hlead, hobject⟩ := hstart _ hpair
    exact eraseValue_body hlead (blockSignature?_of_ne hobject)
  | objectOf _ => exact eraseValue_body (by decide) rfl
  | bitField _ => exact eraseValue_body (by decide) (blockSignature?_of_ne (by decide))

/-- A whole text is kept before a settled one. -/
theorem erase_whole {part s : Encoding} (hpart : Whole part) (hs : Settled s) :
    erase (part ++ s) = part ++ erase s := by
  have hdigit : ∀ c, s.head? = some c → c.isDigit = false := by
    intro c hc
    obtain ⟨s, rfl⟩ := List.head?_eq_some_iff.1 hc
    exact (Bool.or_eq_false_iff.1 hs.start.1).1
  have hsplit := splitValue_whole hpart hdigit
  obtain ⟨c, -, rest, rfl⟩ := hpart.exists_eq_cons
  have hoffset : isOffset c = false := (Settled.whole hpart hs).start.1
  rw [List.cons_append] at hsplit ⊢
  rw [erase_cons hoffset hsplit, eraseValue_whole hpart]

/-- The code of an object is kept, if it does not become part of the code of a block. -/
theorem erase_object {s : Encoding} (hs : Settled s) (hunknown : s.head? ≠ some '?') :
    erase ('@' :: s) = '@' :: erase s := by
  have hquote : s.head? ≠ some '"' := by
    intro hc
    obtain ⟨s, rfl⟩ := List.head?_eq_some_iff.1 hc
    exact hs.start.2 rfl
  have hsplit := (splitValue_body (by decide) s).trans (EncodedValue.splitBody_object hunknown hquote)
  rw [erase_cons (by decide) hsplit, eraseValue_body (by decide) rfl]
  rfl

/-- The code of a block is kept, if no signature follows it. -/
theorem erase_block {s : Encoding} (hs : s.head? ≠ some '<') : erase ('@' :: '?' :: s) = '@' :: '?' :: erase s := by
  have hsplit := (splitValue_body (by decide) _).trans (EncodedValue.splitBody_block hs)
  rw [erase_cons (by decide) hsplit, eraseValue_body (by decide) rfl]
  rfl

/-- A block is kept if its signature is erased to itself, closed or not. -/
theorem eraseValue_signature {s : Encoding} (h : s.getLast? = some '>' → erase s.dropLast = s.dropLast) :
    eraseValue ('@' :: '?' :: '<' :: s) = '@' :: '?' :: '<' :: s := by
  by_cases hlast : s.getLast? = some '>'
  · have hsignature : blockSignature? ('@' :: '?' :: '<' :: s) = some s.dropLast := if_pos hlast
    have hclosed : s.dropLast ++ ['>'] = s := List.dropLast_append_getLast? '>' hlast
    rw [eraseValue, show body ('@' :: '?' :: '<' :: s) = '@' :: '?' :: '<' :: s from rfl, hsignature]
    change '@' :: '?' :: '<' :: (erase s.dropLast ++ ['>']) = _
    rw [h hlast, hclosed]
  · exact eraseValue_body (by decide) (if_neg hlast)

/-- The code of a block with a signature is kept, if shorter settled texts are. -/
theorem erase_signature {s : Encoding} (hs : Settled s)
    (ih : ∀ t : Encoding, t.length ≤ s.length → Settled t → erase t = t) :
    erase ('@' :: '?' :: '<' :: s) = '@' :: '?' :: '<' :: s := by
  obtain ⟨inner, rest, hgroup⟩ : ∃ inner rest, splitGroup '<' '>' 1 false s = (inner, rest) := ⟨_, _, rfl⟩
  obtain ⟨hinner, hrest⟩ : Settled inner ∧ Settled rest := by simpa [hgroup] using hs.splitGroup 0
  have happend : inner ++ rest = s := by simpa [hgroup] using splitGroup_append '<' '>' 1 false s
  have hlength := congrArg List.length happend
  rw [List.length_append] at hlength
  have hsplit : splitValue ('@' :: '?' :: '<' :: s) = ('@' :: '?' :: '<' :: inner, rest) := by
    rw [splitValue_body (by decide), splitBody, hgroup]
    rfl
  have hvalue := eraseValue_signature fun hlast => ih _ (by rw [List.length_dropLast]; omega) (hinner.dropLast hlast)
  rw [erase_cons (by decide) hsplit, hvalue, ih rest (by omega) hrest, ← happend]
  rfl

/-- **A settled text is its own erased form.** -/
theorem erase_of_settled {s : Encoding} (h : Settled s) : erase s = s := by
  -- on the length, because the signature of a block is no part of the text in the sense of `Settled`
  induction hlength : s.length using Nat.strong_induction_on generalizing s with
  | h length ih =>
    subst hlength
    cases h with
    | nil => exact erase_nil
    | @whole part s hpart hs =>
      obtain ⟨c, -, rest, rfl⟩ := hpart.exists_eq_cons
      have hshorter : s.length < (c :: rest ++ s).length := by
        rw [List.length_append, List.length_cons]
        omega
      rw [erase_whole hpart hs, ih s.length hshorter hs rfl]
    | @code c s hc hs =>
      have hshorter : ∀ t : Encoding, t.length ≤ s.length → Settled t → erase t = t :=
        fun t ht hsettled => ih t.length (Nat.lt_succ_of_le ht) hsettled rfl
      by_cases hpointer : c = '^'
      · subst hpointer
        have hstart : ∀ c, s.head? = some c → isOffset c = false := by
          intro c hc
          obtain ⟨s, rfl⟩ := List.head?_eq_some_iff.1 hc
          exact hs.start.1
        rw [erase_pointer hstart, hshorter s (Nat.le_refl _) hs]
      by_cases hobject : c = '@'
      · subst hobject
        by_cases hunknown : s.head? = some '?'
        · obtain ⟨s, rfl⟩ := List.head?_eq_some_iff.1 hunknown
          have hs := hs.tail (by decide) (by decide)
          by_cases hangle : s.head? = some '<'
          · obtain ⟨s, rfl⟩ := List.head?_eq_some_iff.1 hangle
            refine erase_signature (hs.tail (by decide) (by decide)) fun t ht => hshorter t ?_
            simp only [List.length_cons]
            omega
          · rw [erase_block hangle, hshorter s (by simp) hs]
        · rw [erase_object hs hunknown, hshorter s (Nat.le_refl _) hs]
      · rw [erase_code hc hpointer hobject, hshorter s (Nat.le_refl _) hs]

/-! ## Texts that are kept wherever they stand -/

/-- A text that erasure leaves alone, and that may stand in any group. -/
structure Steady (s : Encoding) : Prop where
  settled : Settled s
  balanced : Balanced s

namespace Steady

variable {s t : Encoding}

theorem nil : Steady [] := ⟨.nil, .nil⟩

theorem append (hs : Steady s) (ht : Steady t) : Steady (s ++ t) :=
  ⟨hs.settled.append ht.settled, hs.balanced.append ht.balanced⟩

theorem code {c : Char} (hkept : isKept c = true) (hname : isNameCharacter c = true) (hs : Steady s) :
    Steady (c :: s) :=
  ⟨.code hkept hs.settled, .cons hname hs.balanced⟩

theorem whole (hs : Whole s) : Steady s :=
  ⟨List.append_nil s ▸ .whole hs .nil, hs.balanced⟩

/-- A signature between angle brackets. -/
theorem signature (hs : Steady s) : Steady ('<' :: s ++ ['>']) :=
  ⟨(Settled.code (by decide) hs.settled).append (.code (by decide) .nil), hs.balanced.enclosed (by decide)⟩

theorem erase (hs : Steady s) : Encoding.erase s = s := erase_of_settled hs.settled

/-- Erasing steady texts one by one is writing them one after the other. -/
theorem flatMap_erase {texts : List Encoding} (h : ∀ s ∈ texts, Steady s) :
    texts.flatMap Encoding.erase = texts.flatten := by
  rw [List.flatMap_congr fun s hs => (h s hs).erase, List.flatMap_id']

theorem flatten {texts : List Encoding} (h : ∀ s ∈ texts, Steady s) : Steady texts.flatten := by
  induction texts with
  | nil => exact nil
  | cons s rest ih =>
    exact (h s List.mem_cons_self).append (ih fun t ht => h t (List.mem_cons_of_mem s ht))

end Steady

end HeaderCatalog.Encoding
