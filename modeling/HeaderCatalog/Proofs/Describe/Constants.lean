import HeaderCatalog.Describe.Entry
import Mathlib.Data.List.Chain

set_option autoImplicit false

/-!
# The values of enumeration constants

A constant without a value of its own goes on from the constant in front of it.  In a header that is the constant
declared there, whether it applies or not.  An enumeration drops the constants that do not apply before it numbers the
others, so a constant goes on from the last one that is left.

`cases_enum` says what value each constant is given, and that this is its value in the header (`declaredCases`) exactly
if the constants that are left in front of it lead to the same value as all of them.  That is so wherever a constant
behind a dropped one has a value of its own (`cases_enum_of_isChain`).
-/

namespace HeaderCatalog

/-! ## Constants and those in front of them -/

/-- The value that a constant without a value of its own has behind others: the one after the last of them. -/
def nextValue (before : List Node) : Int64 := before.foldl (fun next constant => constant.value.getD next + 1) 0

@[simp] theorem nextValue_nil : nextValue [] = 0 := rfl

@[simp] theorem nextValue_concat (before : List Node) (constant : Node) :
    nextValue (before ++ [constant]) = constant.value.getD (nextValue before) + 1 :=
  List.foldl_concat ..

/-- A constant with its value behind others. -/
def Node.caseBehind (constant : Node) (before : List Node) : EnumCase :=
  ⟨constant.name, constant.value.getD (nextValue before)⟩

/-- Constants, each with those in front of it. -/
def withBefore (before : List Node) : List Node → List (List Node × Node)
  | [] => []
  | constant :: rest => (before, constant) :: withBefore (before ++ [constant]) rest

theorem map_snd_withBefore (before constants : List Node) : (withBefore before constants).map (·.2) = constants := by
  induction constants generalizing before with
  | nil => rfl
  | cons constant rest ih => rw [withBefore, List.map_cons, ih]

/-- What stands in front of a constant is a first part of the list. -/
theorem exists_after_of_mem_withBefore {before constants : List Node} {place : List Node × Node}
    (h : place ∈ withBefore before constants) : ∃ after, before ++ constants = place.1 ++ place.2 :: after := by
  induction constants generalizing before with
  | nil => cases h
  | cons constant rest ih =>
    rcases List.mem_cons.1 h with rfl | h
    · exact ⟨rest, rfl⟩
    · obtain ⟨after, hafter⟩ := ih h
      exact ⟨after, by rw [← hafter, List.append_assoc, List.singleton_append]⟩

namespace Surroundings

/-- Numbering the constants that are left gives each its value behind those that are left in front of it. -/
theorem numbered_filter (available : Node → Bool) (before constants : List Node) :
    numbered (nextValue (before.filter available)) (constants.filter available) =
      ((withBefore before constants).filter (available ·.2)).map fun place =>
        place.2.caseBehind (place.1.filter available) := by
  induction constants generalizing before with
  | nil => rfl
  | cons constant rest ih =>
    have hrest := ih (before ++ [constant])
    rw [List.filter_append] at hrest
    by_cases havailable : available constant = true
    · rw [List.filter_cons_of_pos havailable, List.filter_nil, nextValue_concat] at hrest
      rw [List.filter_cons_of_pos havailable, withBefore, List.filter_cons, if_pos havailable, List.map_cons, ← hrest]
      rfl
    · rw [List.filter_cons_of_neg havailable, List.filter_nil, List.append_nil] at hrest
      rw [List.filter_cons_of_neg havailable, withBefore, List.filter_cons, if_neg havailable, hrest]

theorem numbered_eq_map (constants : List Node) :
    numbered 0 constants = (withBefore [] constants).map fun place => place.2.caseBehind place.1 := by
  simpa using numbered_filter (fun _ => true) [] constants

end Surroundings

/-! ## The values in the header -/

/-- The constants of an enumeration that apply, each with the value that it has among all of them. -/
def Node.declaredCases (minVersion : String) (node : Node) : List EnumCase :=
  let constants := node.childrenOf .enumConstant
  ((constants.zip (Surroundings.numbered 0 constants)).filter (·.1.isAvailable minVersion)).map (·.2)

theorem Node.declaredCases_eq (minVersion : String) (node : Node) : node.declaredCases minVersion =
    ((withBefore [] (node.childrenOf .enumConstant)).filter (·.2.isAvailable minVersion)).map fun place =>
      place.2.caseBehind place.1 := by
  have hconstants := map_snd_withBefore [] (node.childrenOf .enumConstant)
  have hzip : (node.childrenOf .enumConstant).zip (Surroundings.numbered 0 (node.childrenOf .enumConstant)) =
      (withBefore [] (node.childrenOf .enumConstant)).map fun place => (place.2, place.2.caseBehind place.1) := by
    rw [Surroundings.numbered_eq_map]
    conv =>
      lhs
      arg 1
      rw [← hconstants]
    exact List.zip_map' ..
  unfold declaredCases
  dsimp only
  rw [hzip, List.filter_map, List.map_map]
  rfl

namespace Surroundings

/-- What is left in front of a constant leads to the same value if no constant right behind a dropped one goes on from
it. -/
theorem nextValue_filter_of_isChain {available : Node → Bool} {constant : Node} {before : List Node}
    (h : (before ++ [constant]).IsChain fun first next =>
      available first = false → available next = true → next.value.isSome = true)
    (havailable : available constant = true) (hvalue : constant.value = none) :
    nextValue (before.filter available) = nextValue before := by
  induction before using List.reverseRecOn generalizing constant with
  | nil => rfl
  | append_singleton before last ih =>
    rw [List.append_assoc, List.singleton_append, List.isChain_split] at h
    have hlast : available last = true := by
      by_contra hlast
      have hown := (List.isChain_cons_cons.1 h.2).1 (by simpa using hlast) havailable
      rw [hvalue] at hown
      cases hown
    rw [List.filter_append, List.filter_cons_of_pos hlast, List.filter_nil, nextValue_concat, nextValue_concat]
    cases hown : last.value with
    | some value => rfl
    | none => rw [ih h.1 hlast hown]

variable (here : Surroundings) (node : Node)

theorem cases_enum_eq : (here.enum node).value.cases =
    ((withBefore [] (node.childrenOf .enumConstant)).filter (·.2.isAvailable here.settings.minVersion)).map
      fun place => place.2.caseBehind (place.1.filter (·.isAvailable here.settings.minVersion)) :=
  numbered_filter (·.isAvailable here.settings.minVersion) [] (node.childrenOf .enumConstant)

/-- The values are those of the header if no constant that applies goes on from one that does not. -/
theorem cases_enum_of_isChain
    (h : (node.childrenOf .enumConstant).IsChain fun first next =>
      first.isAvailable here.settings.minVersion = false → next.isAvailable here.settings.minVersion = true →
        next.value.isSome = true) :
    (here.enum node).value.cases = node.declaredCases here.settings.minVersion := by
  rw [cases_enum_eq, Node.declaredCases_eq]
  refine List.map_congr_left fun place hplace => ?_
  obtain ⟨hmem, havailable⟩ := List.mem_filter.1 hplace
  obtain ⟨after, hafter⟩ := exists_after_of_mem_withBefore hmem
  unfold Node.caseBehind
  cases hvalue : place.2.value with
  | some value => rfl
  | none =>
    rw [List.nil_append] at hafter
    rw [hafter, List.isChain_split] at h
    rw [nextValue_filter_of_isChain h.1 havailable hvalue]

/-- **The values of constants.**  Each constant that applies has its own value, or else the one after the last constant
in front of it that applies.  These are the values of the header exactly if, for every constant that applies and has no
value of its own, the constants in front of it that apply lead to the same value as all of them. -/
theorem cases_enum :
    let available (constant : Node) : Bool := constant.isAvailable here.settings.minVersion
    let places := withBefore [] (node.childrenOf .enumConstant)
    ((here.enum node).value.cases =
      (places.filter (available ·.2)).map fun place => place.2.caseBehind (place.1.filter available)) ∧
    ((here.enum node).value.cases = node.declaredCases here.settings.minVersion ↔
      ∀ place ∈ places, available place.2 = true → place.2.value = none →
        nextValue (place.1.filter available) = nextValue place.1) := by
  intro available places
  refine ⟨cases_enum_eq here node, ?_⟩
  rw [cases_enum_eq, Node.declaredCases_eq, List.map_inj_left]
  constructor
  · intro h place hplace havailable hvalue
    have hcase := congrArg EnumCase.value (h place (List.mem_filter.2 ⟨hplace, havailable⟩))
    simpa [Node.caseBehind, hvalue] using hcase
  · intro h place hplace
    obtain ⟨hmem, havailable⟩ := List.mem_filter.1 hplace
    unfold Node.caseBehind
    cases hvalue : place.2.value with
    | some value => rfl
    | none => exact congrArg (EnumCase.mk place.2.name) (h place hmem havailable hvalue)

/-- Two constants that do not apply: one goes on from the constant in front of it, the other has the value that it would
have anyway.  A constant with a value of its own stands behind the first, none behind the second. -/
theorem cases_enum_curve :
    let here : Surroundings := ⟨{}, .empty, .unresolved⟩
    let dropped : Option Availability := some { unavailable := true }
    let constants : List Node :=
      [{ kind := .enumConstant, name := "Linear" },
        { kind := .enumConstant, name := "Spring", availability := dropped },
        { kind := .enumConstant, name := "EaseIn", value := some (-1) },
        { kind := .enumConstant, name := "Bounce", availability := dropped, value := some (-1) },
        { kind := .enumConstant, name := "EaseOut" }]
    let node : Node := { kind := .enum, name := "Curve", children := constants }
    (∀ place ∈ withBefore [] (node.childrenOf .enumConstant),
      place.2.isAvailable here.settings.minVersion = true → place.2.value = none →
        nextValue (place.1.filter (·.isAvailable here.settings.minVersion)) = nextValue place.1) ∧
      (here.enum node).value.cases = node.declaredCases here.settings.minVersion ∧
      node.declaredCases here.settings.minVersion = [⟨"Linear", 0⟩, ⟨"EaseIn", -1⟩, ⟨"EaseOut", 0⟩] := by
  intro here dropped constants node
  have h : ∀ place ∈ withBefore [] (node.childrenOf .enumConstant),
      place.2.isAvailable here.settings.minVersion = true → place.2.value = none →
        nextValue (place.1.filter (·.isAvailable here.settings.minVersion)) = nextValue place.1 := by decide +kernel
  exact ⟨h, (cases_enum here node).2.2 h, by decide +kernel⟩

/-- A constant that goes on from one that does not apply: it is given the value that the other one has. -/
theorem cases_enum_ne_quality :
    let here : Surroundings := ⟨{}, .empty, .unresolved⟩
    let constants : List Node :=
      [{ kind := .enumConstant, name := "Low", value := some 5 },
        { kind := .enumConstant, name := "Medium", availability := some { unavailable := true } },
        { kind := .enumConstant, name := "High" }]
    let node : Node := { kind := .enum, name := "Quality", children := constants }
    isAnonymousEnum node = false ∧ (here.enum node).value.cases = [⟨"Low", 5⟩, ⟨"High", 6⟩] ∧
      node.declaredCases here.settings.minVersion = [⟨"Low", 5⟩, ⟨"High", 7⟩] := by
  decide +kernel

end Surroundings

end HeaderCatalog
