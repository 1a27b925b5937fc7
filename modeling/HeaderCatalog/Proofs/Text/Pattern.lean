import Mathlib.Data.List.Basic

set_option autoImplicit false

/-!
# Searching a text for a pattern

A pattern may match the front of a text in several ways, and the ways are tried in an order of preference: a run of
characters is as long as what comes behind it allows (`Pattern.ways`).  A search takes the leftmost place where there is
a way, there the first one, and goes on behind what was matched (`Pattern.captures`).

Every pattern takes at least one character, so a search gets ahead with each match.  Its course is followed by two
equations: a match at the front is taken (`captures_of_mem_head?`), and without one the search goes on one character
further (`captures_cons_of_ways_eq_nil`).
-/

namespace HeaderCatalog.Text

/-- A pattern. -/
inductive Pattern where
  /-- A character of a class. -/
  | one (allowed : Char → Bool)
  /-- Characters of a class, at least one, and rather more than less. -/
  | run (allowed : Char → Bool)
  | andThen (first second : Pattern)
  /-- A pattern whose part of the text is kept. -/
  | kept (inner : Pattern)

/-- A way to match the front of a text. -/
structure Way where
  matched : List Char
  /-- The part of the text that is kept, if there is one. -/
  kept : Option (List Char) := none
  rest : List Char

namespace Pattern

/-- The runs of allowed characters at the front of a text, the longest first. -/
def runs (allowed : Char → Bool) : List Char → List Way
  | [] => []
  | c :: rest =>
    if allowed c then
      (runs allowed rest).map (fun way => { way with matched := c :: way.matched }) ++ [{ matched := [c], rest }]
    else []

/-- The ways a pattern matches the front of a text, the preferred one first. -/
def ways : Pattern → List Char → List Way
  | one _, [] => []
  | one allowed, c :: rest => if allowed c then [{ matched := [c], rest }] else []
  | run allowed, s => runs allowed s
  | andThen first second, s =>
    (first.ways s).flatMap fun way => (second.ways way.rest).map fun next =>
      { matched := way.matched ++ next.matched, kept := next.kept.or way.kept, rest := next.rest }
  | kept inner, s => (inner.ways s).map fun way => { way with kept := some way.matched }

/-- The pattern of the text that starts with one character and goes on with others. -/
def text (c : Char) : List Char → Pattern
  | [] => one (· == c)
  | d :: rest => andThen (one (· == c)) (text d rest)

/-! ## The ways of each pattern -/

theorem mem_ways_one {allowed : Char → Bool} {s : List Char} {way : Way} :
    way ∈ (one allowed).ways s ↔
      ∃ c rest, allowed c = true ∧ s = c :: rest ∧ way = { matched := [c], rest } := by
  cases s with
  | nil => simp [ways]
  | cons c rest =>
    unfold ways
    split
    case isTrue hc =>
      rw [List.mem_singleton]
      constructor
      · rintro rfl
        exact ⟨c, rest, hc, rfl, rfl⟩
      · rintro ⟨_, _, -, hs, rfl⟩
        cases hs
        rfl
    case isFalse hc =>
      refine iff_of_false List.not_mem_nil ?_
      rintro ⟨_, _, hallowed, hs, -⟩
      cases hs
      exact hc hallowed

theorem mem_runs {allowed : Char → Bool} {s : List Char} {way : Way} :
    way ∈ runs allowed s ↔
      ∃ run rest, run ≠ [] ∧ (∀ c ∈ run, allowed c = true) ∧ s = run ++ rest ∧ way = { matched := run, rest } := by
  induction s generalizing way with
  | nil =>
    refine iff_of_false List.not_mem_nil ?_
    rintro ⟨run, rest, hne, -, hs, -⟩
    exact hne (List.append_eq_nil_iff.1 hs.symm).1
  | cons c s ih =>
    unfold runs
    split
    case isTrue hc =>
      rw [List.mem_append, List.mem_map, List.mem_singleton]
      constructor
      · rintro (⟨longer, hlonger, rfl⟩ | rfl)
        · obtain ⟨run, rest, -, hrun, rfl, rfl⟩ := ih.1 hlonger
          exact ⟨c :: run, rest, List.cons_ne_nil c run, List.forall_mem_cons.2 ⟨hc, hrun⟩, rfl, rfl⟩
        · exact ⟨[c], s, List.cons_ne_nil c [], by simpa using hc, rfl, rfl⟩
      · rintro ⟨run, rest, hne, hrun, hs, rfl⟩
        cases run with
        | nil => exact absurd rfl hne
        | cons d run =>
          obtain ⟨rfl, rfl⟩ := List.cons.inj hs
          cases run with
          | nil => exact Or.inr rfl
          | cons e run =>
            have hlonger := ih.2 ⟨e :: run, rest, List.cons_ne_nil e run, (List.forall_mem_cons.1 hrun).2, rfl, rfl⟩
            exact Or.inl ⟨_, hlonger, rfl⟩
    case isFalse hc =>
      refine iff_of_false List.not_mem_nil ?_
      rintro ⟨run, rest, hne, hrun, hs, -⟩
      cases run with
      | nil => exact hne rfl
      | cons d run =>
        obtain ⟨rfl, -⟩ := List.cons.inj hs
        exact hc (hrun c List.mem_cons_self)

theorem mem_ways_run {allowed : Char → Bool} {s : List Char} {way : Way} :
    way ∈ (run allowed).ways s ↔
      ∃ run rest, run ≠ [] ∧ (∀ c ∈ run, allowed c = true) ∧ s = run ++ rest ∧ way = { matched := run, rest } :=
  mem_runs

theorem mem_ways_andThen {first second : Pattern} {s : List Char} {way : Way} :
    way ∈ (first.andThen second).ways s ↔ ∃ front ∈ first.ways s, ∃ back ∈ second.ways front.rest,
      way = { matched := front.matched ++ back.matched, kept := back.kept.or front.kept, rest := back.rest } := by
  rw [ways, List.mem_flatMap]
  simp only [List.mem_map, eq_comm]

theorem mem_ways_kept {inner : Pattern} {s : List Char} {way : Way} :
    way ∈ (kept inner).ways s ↔ ∃ found ∈ inner.ways s, way = { found with kept := some found.matched } := by
  rw [ways, List.mem_map]
  simp only [eq_comm]

theorem mem_ways_text {c : Char} {others s : List Char} {way : Way} :
    way ∈ (text c others).ways s ↔ ∃ rest, s = c :: others ++ rest ∧ way = { matched := c :: others, rest } := by
  induction others generalizing c s way with
  | nil =>
    rw [text, mem_ways_one]
    simp
  | cons d others ih =>
    rw [text, mem_ways_andThen]
    constructor
    · rintro ⟨front, hfront, back, hback, rfl⟩
      obtain ⟨e, behind, he, rfl, rfl⟩ := mem_ways_one.1 hfront
      obtain ⟨rest, hrest, rfl⟩ := ih.1 hback
      obtain rfl : e = c := by simpa using he
      exact ⟨rest, congrArg (List.cons e) hrest, rfl⟩
    · rintro ⟨rest, rfl, rfl⟩
      have hfront : { matched := [c], rest := d :: others ++ rest } ∈ (one (· == c)).ways (c :: (d :: others) ++ rest) :=
        mem_ways_one.2 ⟨c, _, beq_self_eq_true c, rfl, rfl⟩
      exact ⟨_, hfront, _, ih.2 ⟨rest, rfl, rfl⟩, rfl⟩

/-- What is matched is the front of the text, and it is not empty. -/
theorem eq_append_of_mem_ways {pattern : Pattern} {s : List Char} {way : Way} (h : way ∈ pattern.ways s) :
    way.matched ≠ [] ∧ s = way.matched ++ way.rest := by
  induction pattern generalizing s way with
  | one allowed =>
    obtain ⟨c, rest, -, rfl, rfl⟩ := mem_ways_one.1 h
    exact ⟨List.cons_ne_nil c [], rfl⟩
  | run allowed =>
    obtain ⟨run, rest, hne, -, rfl, rfl⟩ := mem_ways_run.1 h
    exact ⟨hne, rfl⟩
  | andThen first second ihFirst ihSecond =>
    obtain ⟨front, hfront, back, hback, rfl⟩ := mem_ways_andThen.1 h
    obtain ⟨hne, hs⟩ := ihFirst hfront
    obtain ⟨-, hrest⟩ := ihSecond hback
    exact ⟨List.append_ne_nil_of_left_ne_nil hne back.matched, by rw [hs, hrest, List.append_assoc]⟩
  | kept inner ih =>
    obtain ⟨found, hfound, rfl⟩ := mem_ways_kept.1 h
    obtain ⟨hne, hs⟩ := ih hfound
    exact ⟨hne, hs⟩

/-! ## Searching -/

/-- The first match in a text: the leftmost place where the pattern matches, and the way it prefers there. -/
def search? (pattern : Pattern) : List Char → Option Way
  | [] => none
  | c :: rest =>
    match (pattern.ways (c :: rest)).head? with
    | some way => some way
    | none => search? pattern rest

theorem length_search? {pattern : Pattern} {s : List Char} {way : Way} (h : pattern.search? s = some way) :
    way.rest.length < s.length := by
  induction s with
  | nil => cases h
  | cons c s ih =>
    unfold search? at h
    split at h
    case h_1 found hfound =>
      cases h
      obtain ⟨hne, hs⟩ := eq_append_of_mem_ways (List.mem_of_head? hfound)
      have hlength := congrArg List.length hs
      rw [List.length_append] at hlength
      have hpos := List.length_pos_of_ne_nil hne
      omega
    case h_2 => exact Nat.lt_succ_of_lt (ih h)

/-- What is kept of each match of a pattern in a text, from left to right.  No two matches overlap. -/
def captures (pattern : Pattern) (s : List Char) : List (Option (List Char)) :=
  match _found : pattern.search? s with
  | none => []
  | some way => way.kept :: captures pattern way.rest
termination_by s.length
decreasing_by exact length_search? _found

variable {pattern : Pattern} {s : List Char}

theorem captures_of_search?_eq_none (h : pattern.search? s = none) : pattern.captures s = [] := by
  rw [captures]
  split
  · rfl
  · next hfound => rw [h] at hfound; cases hfound

theorem captures_of_search?_eq_some {way : Way} (h : pattern.search? s = some way) :
    pattern.captures s = way.kept :: pattern.captures way.rest := by
  rw [captures]
  split
  · next hfound => rw [h] at hfound; cases hfound
  · next hfound =>
    rw [h] at hfound
    cases hfound
    rfl

/-- A match at the front is taken, in the preferred way. -/
theorem captures_of_mem_head? {way : Way} (h : way ∈ (pattern.ways s).head?) :
    pattern.captures s = way.kept :: pattern.captures way.rest := by
  refine captures_of_search?_eq_some ?_
  cases s with
  | nil =>
    obtain ⟨hne, hs⟩ := eq_append_of_mem_ways (List.mem_of_head? h)
    exact absurd (List.append_eq_nil_iff.1 hs.symm).1 hne
  | cons c s =>
    unfold search?
    rw [Option.mem_def.1 h]

/-- Where there is no match the search goes on one character further. -/
theorem captures_cons_of_ways_eq_nil {c : Char} (h : pattern.ways (c :: s) = []) :
    pattern.captures (c :: s) = pattern.captures s := by
  have hsearch : pattern.search? (c :: s) = pattern.search? s := by
    conv =>
      lhs
      unfold search?
    rw [h]
    rfl
  cases hfound : pattern.search? s with
  | none => rw [captures_of_search?_eq_none hfound, captures_of_search?_eq_none (hsearch.trans hfound)]
  | some way => rw [captures_of_search?_eq_some hfound, captures_of_search?_eq_some (hsearch.trans hfound)]

end Pattern

end HeaderCatalog.Text
