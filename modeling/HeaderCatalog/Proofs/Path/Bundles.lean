import HeaderCatalog.Proofs.Path
import HeaderCatalog.Proofs.Text.Pattern
import HeaderCatalog.Settings.Basic

set_option autoImplicit false

/-!
# The bundles on a path

There are three readings of the framework that a path belongs to.  The path may be cut into components, as `framework?`
does it.  It may be searched for a pattern, match after match, and the last match counts (`bundlePattern`).  And one may
ask where in the path a bundle stands and what comes behind it (`Enters`).

They agree on every path (`framework?_innermost`): a match never crosses a slash, and in a component there is at most
one, which takes all of it.  All three are followed from the first component to the last (`induction_on_components`).
-/

namespace HeaderCatalog.Path

/-! ## Component by component -/

/-- What stands in front of the first slash and behind it is determined by the path. -/
theorem component_inj {component other rest later : List Char} (hcomponent : '/' ∉ component) (hother : '/' ∉ other)
    (h : component ++ '/' :: rest = other ++ '/' :: later) : component = other ∧ rest = later := by
  rcases List.append_eq_append_iff.1 h with ⟨gap, hgap, hrest⟩ | ⟨gap, hgap, hrest⟩
  all_goals
    cases gap with
    | nil => simp_all
    | cons c gap =>
      obtain ⟨rfl, -⟩ := List.cons.inj hrest
      simp_all

/-- A path is a name without a slash, or a component, a slash and another path. -/
@[elab_as_elim]
theorem induction_on_components {P : List Char → Prop} (path : List Char)
    (name : ∀ path, '/' ∉ path → P path)
    (step : ∀ component rest, '/' ∉ component → P rest → P (component ++ '/' :: rest)) : P path := by
  induction hlength : path.length using Nat.strong_induction_on generalizing path with
  | h length ih =>
    subst hlength
    by_cases hslash : '/' ∈ path
    · obtain ⟨component, rest, rfl, hcomponent⟩ := List.eq_append_cons_of_mem hslash
      refine step component rest hcomponent (ih rest.length ?_ rest rfl)
      rw [List.length_append, List.length_cons]
      omega
    · exact name path hslash

/-- The frameworks whose bundles a path enters, from the outermost to the innermost. -/
def bundles (path : List Char) : List (List Char) := (path.splitOn '/').dropLast.filterMap bundleName?

theorem framework?_eq (path : String) : framework? path = (bundles path.toList).getLast?.map String.ofList := rfl

theorem bundles_of_not_mem {path : List Char} (h : '/' ∉ path) : bundles path = [] := by
  rw [bundles, List.splitOn_eq_singleton h]
  rfl

theorem bundles_component {component : List Char} (h : '/' ∉ component) (rest : List Char) :
    bundles (component ++ '/' :: rest) = (bundleName? component).toList ++ bundles rest := by
  have hsplit : (component ++ '/' :: rest).splitOn '/' = component :: rest.splitOn '/' := by
    have hslash : ('/' == '/') = true := beq_self_eq_true '/'
    calc (component ++ '/' :: rest).splitOn '/'
        = component.splitOn '/' ++ rest.splitOn '/' := List.splitOnP_append_cons component rest hslash
      _ = component :: rest.splitOn '/' := by rw [List.splitOn_eq_singleton h, List.singleton_append]
  rw [bundles, hsplit, List.dropLast_cons_of_ne_nil (List.splitOn_ne_nil '/' rest), List.filterMap_cons]
  cases bundleName? component <;> rfl

theorem bundleName?_eq_some_iff {component name : List Char} :
    bundleName? component = some name ↔ name ≠ [] ∧ component = name ++ bundleEnding := by
  refine ⟨bundleName?_eq_some, ?_⟩
  rintro ⟨hne, rfl⟩
  simp [bundleName?, hne]

/-! ## Where a bundle stands -/

/-- A path enters the bundle of a framework: one of its components is the name of the framework and the ending of
bundles, and a slash and the rest of the path stand behind it. -/
structure Enters (path name rest : List Char) : Prop where
  name_ne : name ≠ []
  slash_not_mem : '/' ∉ name
  split : ∃ before, path = before ++ (name ++ bundleEnding ++ '/' :: rest) ∧ ∀ c ∈ before.getLast?, c = '/'

theorem slash_not_mem_bundle {name : List Char} (h : '/' ∉ name) : '/' ∉ name ++ bundleEnding :=
  List.not_mem_append h (by decide +kernel)

theorem not_enters_of_not_mem {path name rest : List Char} (h : '/' ∉ path) : ¬Enters path name rest := by
  rintro ⟨-, -, before, rfl, -⟩
  simp at h

/-- Whatever stands in front of a bundle, the path enters it. -/
theorem enters_behind (before : List Char) {name : List Char} (hne : name ≠ []) (hslash : '/' ∉ name)
    (rest : List Char) : Enters (before ++ '/' :: (name ++ bundleEnding ++ '/' :: rest)) name rest where
  name_ne := hne
  slash_not_mem := hslash
  split := by
    refine ⟨before ++ ['/'], List.append_cons .., fun c hc => ?_⟩
    rw [List.getLast?_concat] at hc
    exact (Option.some.inj hc).symm

/-- The bundle that a path enters is its first component, or a bundle that the path behind it enters. -/
theorem enters_component {component : List Char} (h : '/' ∉ component) {rest name later : List Char} :
    Enters (component ++ '/' :: rest) name later ↔
      bundleName? component = some name ∧ later = rest ∨ Enters rest name later := by
  rw [bundleName?_eq_some_iff]
  constructor
  · rintro ⟨hne, hslash, before, hpath, hbefore⟩
    by_cases hmem : '/' ∈ before
    · -- the first slash of the path is that of the part in front of the bundle
      obtain ⟨first, between, rfl, hfirst⟩ := List.eq_append_cons_of_mem hmem
      rw [List.append_assoc, List.cons_append] at hpath
      obtain ⟨-, rfl⟩ := component_inj h hfirst hpath
      refine Or.inr ⟨hne, hslash, between, rfl, fun c hc => hbefore c ?_⟩
      cases between with
      | nil => cases hc
      | cons d between => simpa using hc
    · have hnil : before = [] := by
        cases hlast : before.getLast? with
        | none => exact List.getLast?_eq_none_iff.1 hlast
        | some c =>
          obtain rfl := hbefore c hlast
          exact absurd (List.mem_of_getLast? hlast) hmem
      rw [hnil, List.nil_append] at hpath
      obtain ⟨rfl, rfl⟩ := component_inj h (slash_not_mem_bundle hslash) hpath
      exact Or.inl ⟨⟨hne, rfl⟩, rfl⟩
  · rintro (⟨⟨hne, rfl⟩, rfl⟩ | ⟨hne, hslash, before, rfl, hbefore⟩)
    · exact ⟨hne, fun hmem => h (List.mem_append_left _ hmem), [], rfl, nofun⟩
    · refine ⟨hne, hslash, component ++ '/' :: before, by simp, fun c hc => ?_⟩
      rw [List.getLast?_append_of_ne_nil _ (List.cons_ne_nil _ _), List.getLast?_cons] at hc
      cases hlast : before.getLast? with
      | none =>
        rw [hlast] at hc
        exact (Option.some.inj hc).symm
      | some d =>
        rw [hlast] at hc
        obtain rfl := Option.some.inj hc
        exact hbefore d hlast

theorem bundles_eq_nil_iff {path : List Char} : bundles path = [] ↔ ∀ name rest, ¬Enters path name rest := by
  induction path using induction_on_components with
  | name path h => exact iff_of_true (bundles_of_not_mem h) fun _ _ => not_enters_of_not_mem h
  | step component rest h ih =>
    rw [bundles_component h, List.append_eq_nil_iff, ih, Option.toList_eq_nil_iff]
    simp only [enters_component h, not_or, forall_and, not_and]
    refine and_congr_left fun _ => ?_
    constructor
    · intro hnone name later hsome
      rw [hnone] at hsome
      cases hsome
    · intro hnot
      exact Option.eq_none_iff_forall_ne_some.2 fun name hsome => hnot name rest hsome rfl

/-- The last bundle is the one behind which the path enters no other. -/
theorem getLast?_bundles {path name : List Char} :
    (bundles path).getLast? = some name ↔ ∃ rest, Enters path name rest ∧ bundles rest = [] := by
  induction path using induction_on_components with
  | name path h =>
    rw [bundles_of_not_mem h]
    exact iff_of_false nofun fun ⟨_, henters, _⟩ => not_enters_of_not_mem h henters
  | step component rest h ih =>
    rw [bundles_component h, List.getLast?_append]
    simp only [enters_component h]
    by_cases hrest : bundles rest = []
    · have hnot := bundles_eq_nil_iff.1 hrest
      rw [hrest, List.getLast?_nil, Option.none_or]
      constructor
      · intro hlast
        have hname : bundleName? component = some name := by
          cases hbundle : bundleName? component with
          | none => rw [hbundle] at hlast; cases hlast
          | some other => rw [hbundle] at hlast; exact hlast
        exact ⟨rest, Or.inl ⟨hname, rfl⟩, hrest⟩
      · rintro ⟨later, ⟨hname, -⟩ | henters, -⟩
        · rw [hname]
          rfl
        · exact absurd henters (hnot name later)
    · obtain ⟨last, hlast⟩ := Option.ne_none_iff_exists'.1 (mt List.getLast?_eq_none_iff.1 hrest)
      rw [hlast, Option.some_or, ← hlast, ih]
      constructor
      · rintro ⟨later, henters, hlater⟩
        exact ⟨later, Or.inr henters, hlater⟩
      · rintro ⟨later, ⟨-, rfl⟩ | henters, hlater⟩
        · exact absurd hlater hrest
        · exact ⟨later, henters, hlater⟩

/-! ## Searching for bundles -/

/-- A name, which is kept, then the ending of bundles and a slash: `([^/]+)\.framework/`. -/
def bundlePattern : Text.Pattern := .andThen (.kept (.run (· != '/'))) (.text '.' "framework/".toList)

theorem mem_ways_bundlePattern {s : List Char} {way : Text.Way} :
    way ∈ bundlePattern.ways s ↔ ∃ name rest, name ≠ [] ∧ '/' ∉ name ∧ s = name ++ bundleEnding ++ '/' :: rest ∧
      way = { matched := name ++ (bundleEnding ++ ['/']), kept := some name, rest } := by
  have hending : '.' :: "framework/".toList = bundleEnding ++ ['/'] := by decide +kernel
  have hclass : ∀ name : List Char, (∀ c ∈ name, (c != '/') = true) ↔ '/' ∉ name := by
    intro name
    simp only [bne_iff_ne, ne_eq]
    exact List.forall_mem_ne'
  rw [bundlePattern, Text.Pattern.mem_ways_andThen]
  simp only [Text.Pattern.mem_ways_kept, Text.Pattern.mem_ways_run, Text.Pattern.mem_ways_text, hending, hclass]
  constructor
  · rintro ⟨_, ⟨_, ⟨name, behind, hne, hslash, rfl, rfl⟩, rfl⟩, _, ⟨rest, hrest, rfl⟩, rfl⟩
    have hbehind : behind = bundleEnding ++ '/' :: rest := by simpa using hrest
    exact ⟨name, rest, hne, hslash, by rw [hbehind, List.append_assoc], rfl⟩
  · rintro ⟨name, rest, hne, hslash, rfl, rfl⟩
    exact ⟨_, ⟨_, ⟨name, _, hne, hslash, List.append_assoc .., rfl⟩, rfl⟩, _, ⟨rest, by simp, rfl⟩, rfl⟩

/-- In a component there is one match at most, and it takes all of the component. -/
theorem mem_ways_component {component : List Char} (h : '/' ∉ component) (rest : List Char) {way : Text.Way} :
    way ∈ bundlePattern.ways (component ++ '/' :: rest) ↔ ∃ name, bundleName? component = some name ∧
      way = { matched := name ++ (bundleEnding ++ ['/']), kept := some name, rest } := by
  simp only [mem_ways_bundlePattern, bundleName?_eq_some_iff]
  constructor
  · rintro ⟨name, later, hne, hslash, hs, rfl⟩
    obtain ⟨rfl, rfl⟩ := component_inj h (slash_not_mem_bundle hslash) hs
    exact ⟨name, ⟨hne, rfl⟩, rfl⟩
  · rintro ⟨name, ⟨hne, rfl⟩, rfl⟩
    exact ⟨name, rest, hne, fun hmem => h (List.mem_append_left _ hmem), rfl, rfl⟩

/-- A component that is no bundle is passed over, character by character. -/
theorem captures_of_not_bundle {component : List Char} (h : '/' ∉ component) (hbundle : bundleName? component = none)
    (rest : List Char) : bundlePattern.captures (component ++ '/' :: rest) = bundlePattern.captures rest := by
  have hways : ∀ component : List Char, '/' ∉ component → bundleName? component = none →
      bundlePattern.ways (component ++ '/' :: rest) = [] := by
    intro component h hbundle
    refine List.eq_nil_iff_forall_not_mem.2 fun way hway => ?_
    obtain ⟨name, hname, -⟩ := (mem_ways_component h rest).1 hway
    rw [hbundle] at hname
    cases hname
  induction component with
  | nil => exact Text.Pattern.captures_cons_of_ways_eq_nil (hways [] h hbundle)
  | cons c component ih =>
    have htail : bundleName? component = none := by
      refine Option.eq_none_iff_forall_ne_some.2 fun name hname => ?_
      obtain ⟨-, rfl⟩ := bundleName?_eq_some hname
      have hlonger : bundleName? (c :: (name ++ bundleEnding)) = some (c :: name) :=
        bundleName?_eq_some_iff.2 ⟨List.cons_ne_nil c name, rfl⟩
      rw [hlonger] at hbundle
      cases hbundle
    calc bundlePattern.captures (c :: component ++ '/' :: rest)
        = bundlePattern.captures (component ++ '/' :: rest) :=
          Text.Pattern.captures_cons_of_ways_eq_nil (hways (c :: component) h hbundle)
      _ = bundlePattern.captures rest := ih (List.not_mem_of_not_mem_cons h) htail

theorem captures_component {component : List Char} (h : '/' ∉ component) (rest : List Char) :
    bundlePattern.captures (component ++ '/' :: rest) =
      (bundleName? component).toList.map some ++ bundlePattern.captures rest := by
  cases hbundle : bundleName? component with
  | none => exact captures_of_not_bundle h hbundle rest
  | some name =>
    obtain ⟨way, hhead⟩ : ∃ way, (bundlePattern.ways (component ++ '/' :: rest)).head? = some way := by
      have hway := (mem_ways_component h rest).2 ⟨name, hbundle, rfl⟩
      exact Option.ne_none_iff_exists'.1 fun hnil => List.ne_nil_of_mem hway (List.head?_eq_none_iff.1 hnil)
    obtain ⟨other, hother, rfl⟩ := (mem_ways_component h rest).1 (List.mem_of_head? hhead)
    rw [hbundle] at hother
    obtain rfl := Option.some.inj hother
    exact Text.Pattern.captures_of_mem_head? hhead

/-- The matches in a path are the bundles that it enters. -/
theorem captures_bundlePattern (path : List Char) : bundlePattern.captures path = (bundles path).map some := by
  induction path using induction_on_components with
  | name path h =>
    rw [bundles_of_not_mem h]
    induction path with
    | nil => exact Text.Pattern.captures_of_search?_eq_none rfl
    | cons c path ih =>
      have hways : bundlePattern.ways (c :: path) = [] := by
        refine List.eq_nil_iff_forall_not_mem.2 fun way hway => ?_
        obtain ⟨name, rest, -, -, hpath, -⟩ := mem_ways_bundlePattern.1 hway
        rw [hpath] at h
        simp at h
      rw [Text.Pattern.captures_cons_of_ways_eq_nil hways, ih (List.not_mem_of_not_mem_cons h)]
  | step component rest h ih => rw [captures_component h, bundles_component h, ih, List.map_append]

/-! ## The framework of a path -/

theorem framework?_eq_some_iff {path name : String} :
    framework? path = some name ↔
      ∃ rest, Enters path.toList name.toList rest ∧ ∀ inner later, ¬Enters rest inner later := by
  rw [framework?_eq, Option.map_eq_some_iff]
  simp only [getLast?_bundles, bundles_eq_nil_iff]
  constructor
  · rintro ⟨_, h, rfl⟩
    rwa [String.toList_ofList]
  · intro h
    exact ⟨name.toList, h, String.ofList_toList⟩

/-- A place in a file that has a framework is classified under it. -/
theorem framework_classify {settings : Settings} {path name : String} (h : framework? path = some name)
    (line : UInt32) : (settings.classify (some ⟨path, line⟩)).framework = name := by
  have hempty : path.isEmpty = false := by
    cases hpath : path.isEmpty with
    | false => rfl
    | true =>
      rw [String.isEmpty_iff.1 hpath] at h
      cases h
  unfold Settings.classify
  dsimp only
  rw [if_neg (Bool.eq_false_iff.1 hempty), h]

/-- **The framework of a path is that of the innermost bundle that it enters**, and there is none if it enters no bundle.
It is what the last match of the pattern keeps.  So what stands in front of a bundle makes no difference, and neither
does the SDK when a place in that file is classified. -/
theorem framework?_innermost :
    (∀ path : String,
      framework? path = (bundlePattern.captures path.toList).getLast?.join.map String.ofList ∧
      (∀ name, framework? path = some name ↔
        ∃ rest, Enters path.toList name.toList rest ∧ ∀ inner later, ¬Enters rest inner later) ∧
      (framework? path = none ↔ ∀ name rest, ¬Enters path.toList name rest)) ∧
    ∀ before name rest : String, name ≠ "" → '/' ∉ name.toList → (∀ inner later, ¬Enters rest.toList inner later) →
      framework? (before ++ "/" ++ name ++ ".framework/" ++ rest) = some name ∧
      ∀ (settings : Settings) (line : UInt32),
        (settings.classify (some ⟨before ++ "/" ++ name ++ ".framework/" ++ rest, line⟩)).framework = name := by
  refine ⟨fun path => ⟨?_, fun name => framework?_eq_some_iff, ?_⟩, fun before name rest hne hslash hrest => ?_⟩
  · rw [framework?_eq, captures_bundlePattern, List.getLast?_map]
    cases (bundles path.toList).getLast? <;> rfl
  · rw [framework?_eq, Option.map_eq_none_iff, List.getLast?_eq_none_iff, bundles_eq_nil_iff]
  · have hpath : (before ++ "/" ++ name ++ ".framework/" ++ rest).toList =
        before.toList ++ '/' :: (name.toList ++ bundleEnding ++ '/' :: rest.toList) := by
      have hseparator : "/".toList = ['/'] := by decide
      have hending : ".framework/".toList = bundleEnding ++ ['/'] := by decide +kernel
      simp only [String.toList_append, hseparator, hending, List.append_assoc, List.cons_append, List.nil_append]
    have henters := enters_behind before.toList (by simpa using hne) hslash rest.toList
    have hframework : framework? (before ++ "/" ++ name ++ ".framework/" ++ rest) = some name :=
      framework?_eq_some_iff.2 ⟨rest.toList, hpath ▸ henters, hrest⟩
    exact ⟨hframework, fun settings line => framework_classify hframework line⟩

/-- Bundles inside one another, an ending that is repeated, one without a name, and one at the end of the path. -/
theorem framework?_innermost_nested :
    "Inner.framework" ≠ "" ∧ '/' ∉ "Inner.framework".toList ∧
      (∀ inner later, ¬Enters "Headers//.framework/View.framework".toList inner later) ∧
      framework? ("/SDK/Outer.framework/Frameworks" ++ "/" ++ "Inner.framework" ++ ".framework/" ++
        "Headers//.framework/View.framework") = some "Inner.framework" :=
  have hslash : '/' ∉ "Inner.framework".toList := by decide +kernel
  have hrest : ∀ inner later, ¬Enters "Headers//.framework/View.framework".toList inner later :=
    bundles_eq_nil_iff.1 (by decide +kernel)
  have hframework := framework?_innermost.2 "/SDK/Outer.framework/Frameworks" "Inner.framework"
    "Headers//.framework/View.framework" (by decide) hslash hrest
  ⟨by decide, hslash, hrest, hframework.1⟩

end HeaderCatalog.Path
