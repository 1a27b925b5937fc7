import HeaderCatalog.Proofs.Encoding.Erased
import Mathlib.Data.List.TakeWhile

set_option autoImplicit false

/-!
# Values written one after the other

Texts that are one value each can be written one after the other without anything between them.  Whether they are read
back as they were written is decided between neighbours alone (`tokens_flatten_iff`).  A value runs on into the next one
if it is not closed, or if the next one starts with a character that makes something else of its last code: a question
mark or a quote behind an object, an angle bracket behind a block.

If the values are erased before they are written, they are read back only if there was nothing to erase
(`tokens_flatMap_erase_iff`), because nothing that is cut or erased ever comes back.
-/

namespace HeaderCatalog.Encoding

/-! ## Splits of longer texts -/

/-- A split takes a text, and some of whatever is behind it. -/
def GoesOn (split : Encoding → Encoding × Encoding) (s : Encoding) : Prop :=
  ∀ t, t ≠ [] → s.length < (split (s ++ t)).1.length

/-- A split takes a text, and nothing of what is behind it. -/
def Ends (split : Encoding → Encoding × Encoding) (s : Encoding) : Prop := ∀ t, split (s ++ t) = (s, t)

section Keep

variable {split longer : Encoding → Encoding × Encoding} {first s : Encoding}

theorem GoesOn.keepAll (hlonger : ∀ rest, longer (first ++ rest) = Encoding.keepAll first (split rest))
    (h : GoesOn split s) : GoesOn longer (first ++ s) := by
  intro t ht
  have hlength := h t ht
  rw [List.append_assoc, hlonger, Encoding.keepAll, List.length_append, List.length_append]
  omega

theorem Ends.keepAll (hlonger : ∀ rest, longer (first ++ rest) = Encoding.keepAll first (split rest))
    (h : Ends split s) : Ends longer (first ++ s) := by
  intro t
  rw [List.append_assoc, hlonger, h t]
  rfl

theorem goesOn_or_ends_keepAll (first : Encoding)
    (hlonger : ∀ rest, longer (first ++ rest) = Encoding.keepAll first (split rest))
    (h : GoesOn split s ∨ Ends split s) : GoesOn longer (first ++ s) ∨ Ends longer (first ++ s) :=
  h.imp (.keepAll hlonger) (.keepAll hlonger)

end Keep

/-- The search for the end of a group takes a character and goes on, or it ends there, whatever comes next. -/
theorem splitGroup_cons (opening closing : Char) (depth : Nat) (quoted : Bool) (c : Char) :
    (∃ deeper inside, ∀ rest, splitGroup opening closing depth quoted (c :: rest) =
      keep c (splitGroup opening closing deeper inside rest)) ∨
    ∀ rest, splitGroup opening closing depth quoted (c :: rest) = ([c], rest) := by
  simp only [splitGroup]
  by_cases hquote : c = '"'
  · simp only [if_pos hquote]
    exact Or.inl ⟨_, _, fun _ => rfl⟩
  by_cases hquoted : quoted = true
  · simp only [if_neg hquote, if_pos hquoted]
    exact Or.inl ⟨_, _, fun _ => rfl⟩
  by_cases hopening : c = opening
  · simp only [if_neg hquote, if_neg hquoted, if_pos hopening]
    exact Or.inl ⟨_, _, fun _ => rfl⟩
  by_cases hclosing : c = closing
  · simp only [if_neg hquote, if_neg hquoted, if_neg hopening, if_pos hclosing]
    by_cases hdepth : depth ≤ 1
    · simp only [if_pos hdepth]
      exact Or.inr fun _ => trivial
    · simp only [if_neg hdepth]
      exact Or.inl ⟨_, _, fun _ => rfl⟩
  · simp only [if_neg hquote, if_neg hquoted, if_neg hopening, if_neg hclosing]
    exact Or.inl ⟨_, _, fun _ => rfl⟩

theorem splitGroup_ne_nil (opening closing : Char) (depth : Nat) (quoted : Bool) {t : Encoding} (ht : t ≠ []) :
    (splitGroup opening closing depth quoted t).1 ≠ [] := by
  obtain ⟨c, rest, rfl⟩ := List.exists_cons_of_ne_nil ht
  rcases splitGroup_cons opening closing depth quoted c with ⟨deeper, inside, h⟩ | h
  · rw [h, keep_fst]
    exact List.cons_ne_nil _ _
  · rw [h]
    exact List.cons_ne_nil _ _

/-- A group that takes a whole text is either still open, or closed by the last character. -/
theorem splitGroup_taken {opening closing : Char} {depth : Nat} {quoted : Bool} {s : Encoding}
    (h : (splitGroup opening closing depth quoted s).2 = []) :
    GoesOn (splitGroup opening closing depth quoted) s ∨ Ends (splitGroup opening closing depth quoted) s := by
  induction s generalizing depth quoted with
  | nil => exact Or.inl fun t ht => List.length_pos_iff.2 (splitGroup_ne_nil opening closing depth quoted ht)
  | cons c s ih =>
    rcases splitGroup_cons opening closing depth quoted c with ⟨deeper, inside, hlonger⟩ | hlast
    · rw [hlonger, keep_snd] at h
      exact goesOn_or_ends_keepAll [c] hlonger (ih h)
    · rw [hlast] at h
      obtain rfl : s = [] := h
      exact Or.inr hlast

theorem splitQuote_taken {s : Encoding} (h : (splitQuote s).2 = []) : GoesOn splitQuote s ∨ Ends splitQuote s := by
  induction s with
  | nil =>
    refine Or.inl fun t ht => ?_
    obtain ⟨c, rest, rfl⟩ := List.exists_cons_of_ne_nil ht
    rw [List.nil_append, splitQuote]
    split <;> simp
  | cons c s ih =>
    by_cases hquote : c = '"'
    · have hlast : ∀ rest, splitQuote (c :: rest) = ([c], rest) := fun rest => by rw [splitQuote, if_pos hquote]
      rw [hlast] at h
      obtain rfl : s = [] := h
      exact Or.inr hlast
    · have hlonger : ∀ rest, splitQuote (c :: rest) = keep c (splitQuote rest) :=
        fun rest => by rw [splitQuote, if_neg hquote]
      rw [hlonger, keep_snd] at h
      exact goesOn_or_ends_keepAll [c] hlonger (ih h)

/-! ## Bodies and values -/

/-- What comes next makes something else of a body: a block or an object of a class of an object, a block with a
signature of a block. -/
def Extends (body next : Encoding) : Prop :=
  (body = ['@'] ∧ (next.head? = some '?' ∨ next.head? = some '"')) ∨ (body = ['@', '?'] ∧ next.head? = some '<')

instance (body next : Encoding) : Decidable (Extends body next) := inferInstanceAs (Decidable (_ ∨ _))

/-- A body that takes a whole text is either still open, or ends before anything that does not extend it. -/
theorem splitBody_taken {s : Encoding} (h : (splitBody s).2 = []) :
    GoesOn splitBody s ∨
      ∀ t, (∀ c, t.head? = some c → c.isDigit = false) → ¬Extends s t → splitBody (s ++ t) = (s, t) := by
  have hends : ∀ {s : Encoding}, GoesOn splitBody s ∨ Ends splitBody s → GoesOn splitBody s ∨
      ∀ t, (∀ c, t.head? = some c → c.isDigit = false) → ¬Extends s t → splitBody (s ++ t) = (s, t) :=
    fun h => h.imp_right fun hends t _ _ => hends t
  fun_cases splitBody s with
  | case1 =>
    refine Or.inl fun t ht => ?_
    obtain ⟨c, rest, rfl⟩ := List.exists_cons_of_ne_nil ht
    exact List.length_pos_iff.2 (splitBody_ne_nil c rest)
  | case2 s => exact hends (goesOn_or_ends_keepAll ['{'] (fun _ => rfl) (splitGroup_taken h))
  | case3 s => exact hends (goesOn_or_ends_keepAll ['('] (fun _ => rfl) (splitGroup_taken h))
  | case4 s => exact hends (goesOn_or_ends_keepAll ['['] (fun _ => rfl) (splitGroup_taken h))
  | case5 s => exact hends (goesOn_or_ends_keepAll ['@', '"'] (fun _ => rfl) (splitQuote_taken h))
  | case6 s => exact hends (goesOn_or_ends_keepAll ['@', '?', '<'] (fun _ => rfl) (splitGroup_taken h))
  | case7 s hangle =>
    have hhead : s.head? ≠ some '<' := by
      intro hhead
      obtain ⟨rest, rfl⟩ := List.head?_eq_some_iff.1 hhead
      exact hangle rest rfl
    rw [EncodedValue.splitBody_block hhead] at h
    obtain rfl : s = [] := h
    exact Or.inr fun t _ ht => EncodedValue.splitBody_block fun hhead => ht (Or.inr ⟨rfl, hhead⟩)
  | case8 s =>
    have hdigits : ∀ c ∈ s, c.isDigit = true := List.dropWhile_eq_nil_iff.1 h
    exact Or.inr fun t hdigit _ => EncodedValue.splitBody_bitField hdigits hdigit
  | case9 c s hbrace hparen hsquare hquote hangle hblock hbit =>
    obtain rfl : s = [] := by
      unfold splitBody at h
      split at h <;> simp_all
    refine Or.inr fun t _ ht => ?_
    by_cases hobject : c = '@'
    · subst hobject
      refine EncodedValue.splitBody_object (fun hhead => ht (Or.inl ⟨rfl, Or.inl hhead⟩)) fun hhead => ?_
      exact ht (Or.inl ⟨rfl, Or.inr hhead⟩)
    · rw [List.singleton_append]
      unfold splitBody
      split <;> simp_all

theorem splitBody_ne_of_extends {s t : Encoding} (h : Extends s t) : (splitBody (s ++ t)).1 ≠ s := by
  have hnext : ∀ c, t.head? = some c → ∃ rest, t = c :: rest := fun c hc => List.head?_eq_some_iff.1 hc
  rcases h with ⟨rfl, hhead | hhead⟩ | ⟨rfl, hhead⟩
  all_goals
    obtain ⟨rest, rfl⟩ := hnext _ hhead
    unfold splitBody
    split <;> grind [keep_fst]

theorem splitValue_append_lead {lead : Encoding} (h : ∀ c ∈ lead, isLead c = true) (rest : Encoding) :
    splitValue (lead ++ rest) = keepAll lead (splitValue rest) := by
  induction lead with
  | nil => rfl
  | cons c lead ih =>
    rw [List.cons_append, splitValue_lead (h c List.mem_cons_self), ih fun d hd => h d (List.mem_cons_of_mem c hd),
      keepAll_cons]

theorem lead_append_body (value : Encoding) : value.takeWhile isLead ++ body value = value :=
  List.takeWhile_append_dropWhile

theorem isLead_of_mem_lead {value : Encoding} : ∀ c ∈ value.takeWhile isLead, isLead c = true :=
  fun _ hc => List.mem_takeWhile_imp hc

/-- A value with a body is split where the body is. -/
theorem splitValue_append_of_body {value : Encoding} (h : body value ≠ []) (t : Encoding) :
    splitValue (value ++ t) = keepAll (value.takeWhile isLead) (splitBody (body value ++ t)) := by
  obtain ⟨c, s, hbody⟩ := List.exists_cons_of_ne_nil h
  have hlead : isLead c = false := by
    have hhead := List.head?_dropWhile_not isLead value
    rwa [show value.dropWhile isLead = c :: s from hbody] at hhead
  conv =>
    lhs
    rw [← lead_append_body value, List.append_assoc, splitValue_append_lead isLead_of_mem_lead]
  rw [hbody, List.cons_append, splitValue_body hlead]

/-- A value that takes a whole text is either still open, or ends before anything that does not extend its body. -/
theorem splitValue_taken {value : Encoding} (h : (splitValue value).2 = []) :
    GoesOn splitValue value ∨
      ∀ t, (∀ c, t.head? = some c → c.isDigit = false) → ¬Extends (body value) t →
        splitValue (value ++ t) = (value, t) := by
  by_cases hbody : body value = []
  · have hvalue : value.takeWhile isLead = value := by simpa [hbody] using lead_append_body value
    refine Or.inl fun t ht => ?_
    obtain ⟨c, rest, rfl⟩ := List.exists_cons_of_ne_nil ht
    have hpos := List.length_pos_iff.2 (splitValue_ne_nil c rest)
    rw [splitValue_append_lead (hvalue ▸ isLead_of_mem_lead), keepAll, List.length_append]
    omega
  · have hsplit := splitValue_append_of_body hbody
    have hwhole := hsplit []
    rw [List.append_nil, List.append_nil] at hwhole
    rw [hwhole] at h
    refine (splitBody_taken h).imp (fun hgoes t ht => ?_) fun hends t hdigit ht => ?_
    · have hlength := congrArg List.length (lead_append_body value)
      have hbodyLength := hgoes t ht
      rw [List.length_append] at hlength
      rw [hsplit, keepAll, List.length_append]
      omega
    · rw [hsplit, hends t hdigit ht, keepAll, lead_append_body]

theorem splitValue_ne_of_extends {value t : Encoding} (h : Extends (body value) t) :
    (splitValue (value ++ t)).1 ≠ value := by
  have hbody : body value ≠ [] := by
    rcases h with ⟨hbody, -⟩ | ⟨hbody, -⟩ <;> simp [hbody]
  rw [splitValue_append_of_body hbody, keepAll]
  intro heq
  conv at heq =>
    rhs
    rw [← lead_append_body value]
  exact splitBody_ne_of_extends h (List.append_cancel_left heq)

/-! ## Neighbours -/

/-- Whether a value is still open: a code written behind it becomes part of it. -/
def isOpen (value : Encoding) : Bool := (splitValue (value ++ ['v'])).2.isEmpty

/-- Whether a value is read together with the beginning of what is written behind it. -/
def RunsOn (value next : Encoding) : Prop := isOpen value = true ∨ Extends (body value) next

instance (value next : Encoding) : Decidable (RunsOn value next) := inferInstanceAs (Decidable (_ ∨ _))

theorem isOpen_of_goesOn {value : Encoding} (h : GoesOn splitValue value) : isOpen value = true := by
  have hgoes := h ['v'] (List.cons_ne_nil _ _)
  have hlength := congrArg List.length (splitValue_append (value ++ ['v']))
  rw [List.length_append, List.length_append, List.length_singleton] at hlength
  rw [isOpen, List.isEmpty_iff, ← List.length_eq_zero_iff]
  omega

/-- Where a value ends is decided by the character behind it. -/
theorem splitValue_append_iff {value t : Encoding} (h : (splitValue value).2 = []) (ht : t ≠ [])
    (hdigit : ∀ c, t.head? = some c → c.isDigit = false) :
    splitValue (value ++ t) = (value, t) ↔ ¬RunsOn value t := by
  rcases splitValue_taken h with hgoes | hends
  · refine iff_of_false (fun heq => ?_) (not_not_intro (Or.inl (isOpen_of_goesOn hgoes)))
    have hlonger := hgoes t ht
    rw [heq] at hlonger
    exact Nat.lt_irrefl _ hlonger
  · have hclosed : isOpen value = false := by
      have hplain : ¬Extends (body value) ['v'] := by simp [Extends]
      rw [isOpen, hends ['v'] (by simp) hplain]
      rfl
    constructor
    · rintro heq (hopen | hextends)
      · exact absurd hopen (by simp [hclosed])
      · exact splitValue_ne_of_extends hextends (congrArg Prod.fst heq)
    · exact fun hruns => hends t hdigit fun hextends => hruns (Or.inr hextends)

theorem extends_congr {body next other : Encoding} (h : next.head? = other.head?) :
    Extends body next ↔ Extends body other := by
  rw [Extends, Extends, h]

/-- A value that is closed, and starts like one. -/
structure Delimited (value : Encoding) : Prop where
  closed : isOpen value = false
  start : ∀ c, value.head? = some c → EncodedValue.canStart c = true

/-- Among closed values that start like one, only an object runs on, and only into a question mark. -/
theorem Delimited.runsOn_iff {value next : Encoding} (hvalue : Delimited value) (hnext : Delimited next) :
    RunsOn value next ↔ body value = ['@'] ∧ next.head? = some '?' := by
  have hquote : next.head? ≠ some '"' := fun hc => absurd (hnext.start _ hc) (by decide)
  have hangle : next.head? ≠ some '<' := fun hc => absurd (hnext.start _ hc) (by decide)
  simp [RunsOn, Extends, hvalue.closed, hquote, hangle]

theorem isOpen_pointer (value : Encoding) : isOpen ('^' :: value) = isOpen value := by
  rw [isOpen, List.cons_append, splitValue_lead (by decide), keep_snd]
  rfl

theorem delimited_pointer {value : Encoding} (h : Delimited value) : Delimited ('^' :: value) := by
  refine ⟨(isOpen_pointer value).trans h.closed, ?_⟩
  rintro c ⟨⟩
  decide

/-- What is kept as a whole is closed. -/
theorem delimited_whole {value : Encoding} (h : Whole value) : Delimited value := by
  constructor
  · rw [isOpen, splitValue_whole h (by simp)]
    rfl
  · have hstarts : Whole.starts.all EncodedValue.canStart = true := by decide
    obtain ⟨c, hc, rest, rfl⟩ := h.exists_eq_cons
    rintro d ⟨⟩
    exact List.all_eq_true.1 hstarts c hc

theorem delimited_blockOf {s : Encoding} (hs : Balanced s) : Delimited (blockOf s) := by
  constructor
  · rw [isOpen, splitValue_blockOf hs]
    rfl
  · rintro c ⟨⟩
    decide

/-- A text that is one value starts with no offset, and nothing is left when the value is split off. -/
theorem exists_cons_of_tokens_eq_singleton {value : Encoding} (h : tokens value = [value]) :
    ∃ c s, value = c :: s ∧ isOffset c = false ∧ (splitValue value).2 = [] := by
  obtain ⟨c, s, rfl⟩ : ∃ c s, value = c :: s := List.exists_cons_of_ne_nil (by rintro rfl; simp at h)
  cases hoffset : isOffset c with
  | true =>
    rw [tokens_offset hoffset] at h
    have hlength := length_le_of_mem_tokens (h ▸ List.mem_singleton_self (c :: s))
    exact absurd hlength (by simp)
  | false => exact ⟨c, s, rfl, hoffset, (tokens_eq_singleton hoffset).1 h⟩

/-- A value and a text behind it are read back one after the other if and only if the value does not run on. -/
theorem tokens_append_iff {value t : Encoding} {rest : List Encoding} (h : tokens value = [value]) (ht : t ≠ [])
    (hstart : ∀ c, t.head? = some c → isOffset c = false) :
    tokens (value ++ t) = value :: rest ↔ ¬RunsOn value t ∧ tokens t = rest := by
  obtain ⟨c, s, hvalue, hoffset, hsplit⟩ := exists_cons_of_tokens_eq_singleton h
  have hends := splitValue_append_iff hsplit ht fun c hc => (Bool.or_eq_false_iff.1 (hstart c hc)).1
  have htokens : tokens (value ++ t) = (splitValue (value ++ t)).1 :: tokens (splitValue (value ++ t)).2 := by
    rw [hvalue, List.cons_append]
    exact tokens_value hoffset _
  rw [htokens, ← hends]
  constructor
  · intro heq
    obtain ⟨hfirst, hothers⟩ := List.cons_eq_cons.1 heq
    have happend := splitValue_append (value ++ t)
    rw [hfirst, List.append_cancel_left_eq] at happend
    exact ⟨Prod.ext hfirst happend, happend ▸ hothers⟩
  · rintro ⟨heq, hothers⟩
    rw [heq, hothers]

/-- **Values without anything between them** are read back as they were written if and only if none of them runs on into
the next one. -/
theorem tokens_flatten_iff {values : List Encoding} (h : ∀ value ∈ values, tokens value = [value]) :
    tokens values.flatten = values ↔ values.IsChain fun value next => ¬RunsOn value next := by
  induction values with
  | nil => simp
  | cons value rest ih =>
    have hrest := ih fun next hnext => h next (List.mem_cons_of_mem value hnext)
    cases rest with
    | nil => simpa using h
    | cons next others =>
      obtain ⟨c, s, hnext, hoffset, -⟩ :=
        exists_cons_of_tokens_eq_singleton (h next (List.mem_cons_of_mem value List.mem_cons_self))
      -- only the first character of what is written behind the value counts
      have hhead : (next :: others).flatten.head? = next.head? := by simp [hnext]
      have hstart : ∀ d, (next :: others).flatten.head? = some d → isOffset d = false := by
        intro d hd
        rw [hhead, hnext] at hd
        cases hd
        exact hoffset
      have hruns : RunsOn value (next :: others).flatten ↔ RunsOn value next := or_congr_right (extends_congr hhead)
      rw [List.flatten_cons, tokens_append_iff (h value List.mem_cons_self) (by simp [hnext]) hstart, hruns, hrest,
        List.isChain_cons_cons]

/-! ## Values that are erased before they are written -/

theorem flatMap_sublist_flatten {f : Encoding → Encoding} {values : List Encoding}
    (h : ∀ value ∈ values, List.Sublist (f value) value) : List.Sublist (values.flatMap f) values.flatten := by
  induction values with
  | nil => exact List.Sublist.refl _
  | cons value rest ih =>
    exact (h value List.mem_cons_self).append (ih fun next hnext => h next (List.mem_cons_of_mem value hnext))

/-- If nothing is lost of some texts together, nothing is lost of any of them. -/
theorem eq_of_length_flatten_le {f : Encoding → Encoding} {values : List Encoding}
    (h : ∀ value ∈ values, List.Sublist (f value) value)
    (hlength : values.flatten.length ≤ (values.flatMap f).length) :
    ∀ value ∈ values, f value = value := by
  induction values with
  | nil => exact fun _ hvalue => nomatch hvalue
  | cons value rest ih =>
    have hrest : ∀ next ∈ rest, List.Sublist (f next) next :=
      fun next hnext => h next (List.mem_cons_of_mem value hnext)
    have hfirst := h value List.mem_cons_self
    have hfirstLength := hfirst.length_le
    have hrestLength := (flatMap_sublist_flatten hrest).length_le
    rw [List.flatten_cons, List.flatMap_cons, List.length_append, List.length_append] at hlength
    intro next hnext
    rcases List.mem_cons.1 hnext with rfl | hnext
    · exact hfirst.eq_of_length (by omega)
    · exact ih hrest (by omega) next hnext

/-- Cutting a text into values adds nothing. -/
theorem flatten_tokens_sublist (s : Encoding) : List.Sublist (tokens s).flatten s := by
  fun_induction tokens s with
  | case1 => exact List.Sublist.refl _
  | case2 c rest _ ih => exact ih.cons c
  | case3 c rest _ ih =>
    have hrest := ih.append_left (splitValue (c :: rest)).1
    rwa [splitValue_append] at hrest

/-- A block that has a signature is written around it. -/
theorem eq_blockOf_of_blockSignature? {s signature : Encoding} (h : blockSignature? s = some signature) :
    s = blockOf signature := by
  unfold blockSignature? at h
  split at h
  · split at h
    · rename_i rest hlast
      cases h
      exact congrArg ('@' :: '?' :: '<' :: ·) (List.dropLast_append_getLast? '>' hlast).symm
    · cases h
  · cases h

/-- Erasing a value adds nothing if erasing the signature inside it does not. -/
theorem eraseValue_sublist {value : Encoding}
    (h : ∀ inner : Encoding, inner.length < value.length → List.Sublist (erase inner) inner) :
    List.Sublist (eraseValue value) value := by
  have hlead : List.Sublist (pointerMarks value) (value.takeWhile isLead) := List.filter_sublist
  conv =>
    rhs
    rw [← lead_append_body value]
  unfold eraseValue
  cases hsignature : blockSignature? (body value) with
  | none => exact hlead.append_right (body value)
  | some signature =>
    have hlength := (length_blockSignature? hsignature).trans_le (length_body_le value)
    have hblock : List.Sublist (blockOf (erase signature)) (blockOf signature) :=
      ((((h signature hlength).append_right ['>']).cons_cons '<').cons_cons '?').cons_cons '@'
    rw [← eq_blockOf_of_blockSignature? hsignature] at hblock
    exact hlead.append hblock

/-- Erasing adds nothing. -/
theorem erase_sublist (s : Encoding) : List.Sublist (erase s) s := by
  induction hlength : s.length using Nat.strong_induction_on generalizing s with
  | h length ih =>
    subst hlength
    have hvalues : ∀ value ∈ tokens s, List.Sublist (eraseValue value) value := fun value hvalue =>
      eraseValue_sublist fun inner hinner =>
        ih inner.length (hinner.trans_le (length_le_of_mem_tokens hvalue)) inner rfl
    rw [erase_eq]
    exact (flatMap_sublist_flatten hvalues).trans (flatten_tokens_sublist s)

/-- **Erased values without anything between them** are read back as the values themselves if and only if there was
nothing to erase, and none of the values runs on into the next one. -/
theorem tokens_flatMap_erase_iff {values : List Encoding} (h : ∀ value ∈ values, tokens value = [value]) :
    tokens (values.flatMap erase) = values ↔
      (∀ value ∈ values, erase value = value) ∧ values.IsChain fun value next => ¬RunsOn value next := by
  have hwritten : (∀ value ∈ values, erase value = value) → values.flatMap erase = values.flatten := by
    intro hkept
    rw [List.flatMap_congr hkept, List.flatMap_id']
  constructor
  · intro htokens
    -- what is read back is no longer than what was written, so nothing was lost on the way
    have hlonger := (flatten_tokens_sublist (values.flatMap erase)).length_le
    rw [htokens] at hlonger
    have hkept := eq_of_length_flatten_le (fun value _ => erase_sublist value) hlonger
    exact ⟨hkept, (tokens_flatten_iff h).1 (hwritten hkept ▸ htokens)⟩
  · rintro ⟨hkept, hchain⟩
    rw [hwritten hkept]
    exact (tokens_flatten_iff h).2 hchain

end HeaderCatalog.Encoding
