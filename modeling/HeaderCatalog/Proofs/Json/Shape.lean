import HeaderCatalog.Json.Place
import Mathlib.Data.List.Forall2

set_option autoImplicit false

/-!
# Reading what was written

A structure is written as an object with all its fields, and read from one field by field.  So a value that is written
can be read again as soon as each of its fields can: `fields?_object` finds the fields, and there is one lemma for each
way in which a field is read.  `ReadsBack` says it of values whose readers count levels.

The other direction is what a field that was read looked like: a list of the values in it, related one by one to what
they were read as.
-/

namespace HeaderCatalog

namespace Json

variable {α β : Type}

/-! ## Lists -/

/-- A list in which every item can be read is read item by item. -/
theorem mapM_eq_some_map {f : α → Option β} {g : α → β} {values : List α} (h : ∀ a ∈ values, f a = some (g a)) :
    values.mapM f = some (values.map g) := by
  induction values with
  | nil => rfl
  | cons a rest ih =>
    obtain ⟨hfirst, hrest⟩ := List.forall_mem_cons.1 h
    rw [List.mapM_cons, hfirst, ih hrest]
    rfl

theorem forall₂_of_mapM_eq_some {f : α → Option β} {values : List α} {results : List β}
    (h : values.mapM f = some results) : List.Forall₂ (fun a b => f a = some b) values results := by
  induction values generalizing results with
  | nil =>
    cases h
    exact .nil
  | cons a rest ih =>
    rw [List.mapM_cons] at h
    obtain ⟨b, hfirst, h⟩ := Option.bind_eq_some_iff.1 h
    obtain ⟨others, hrest, h⟩ := Option.bind_eq_some_iff.1 h
    cases h
    exact .cons hfirst (ih hrest)

/-- Lists that are related one by one yield the same, if related elements do. -/
theorem flatMap_eq_of_forall₂ {γ : Type} {r : α → β → Prop} {f : α → List γ} {g : β → List γ} {first : List α}
    {second : List β} (h : List.Forall₂ r first second) (heq : ∀ a b, r a b → f a = g b) :
    first.flatMap f = second.flatMap g := by
  induction h with
  | nil => rfl
  | cons hab _ ih => rw [List.flatMap_cons, List.flatMap_cons, heq _ _ hab, ih]

theorem exists_of_forall₂ {r : α → β → Prop} {first : List α} {second : List β} (h : List.Forall₂ r first second)
    {b : β} (hb : b ∈ second) : ∃ a, r a b := by
  induction h with
  | nil => cases hb
  | cons hab _ ih =>
    rcases List.mem_cons.1 hb with rfl | hrest
    · exact ⟨_, hab⟩
    · exact ih hrest

/-! ## Depth -/

theorem depth_le_depthItems {items : List Json} {item : Json} (h : item ∈ items) : item.depth ≤ depthItems items := by
  induction items with
  | nil => cases h
  | cons first rest ih =>
    rw [depthItems]
    rcases List.mem_cons.1 h with rfl | hrest
    · exact Nat.le_max_left _ _
    · exact Nat.le_trans (ih hrest) (Nat.le_max_right _ _)

theorem depth_le_depthEntries {entries : List (String × Json)} {entry : String × Json} (h : entry ∈ entries) :
    entry.2.depth ≤ depthEntries entries := by
  induction entries with
  | nil => cases h
  | cons first rest ih =>
    rw [depthEntries]
    rcases List.mem_cons.1 h with rfl | hrest
    · exact Nat.le_max_left _ _
    · exact Nat.le_trans (ih hrest) (Nat.le_max_right _ _)

/-- An object takes a level, and what is in it the others. -/
theorem exists_levels {entries : List (String × Json)} {levels : Nat} (h : (object entries).depth ≤ levels) :
    ∃ fewer, levels = fewer + 1 ∧ ∀ entry ∈ entries, entry.2.depth ≤ fewer := by
  cases levels with
  | zero => exact absurd h (Nat.not_succ_le_zero _)
  | succ fewer =>
    exact ⟨fewer, rfl, fun _ hentry => Nat.le_trans (depth_le_depthEntries hentry) (Nat.le_of_succ_le_succ h)⟩

/-! ## Fields by name -/

/-- The field of a structure with a name, if it is there. -/
def field? (names : List String) (name : String) (value : Json) : Option Json :=
  (value.fields? names).bind fun fields => (fields[names.idxOf name]?).join

theorem filter_key {entries : List (String × Json)} (h : (entries.map (·.1)).Nodup) {entry : String × Json}
    (hentry : entry ∈ entries) : entries.filter (·.1 = entry.1) = [entry] := by
  induction entries with
  | nil => cases hentry
  | cons first rest ih =>
    obtain ⟨hfirst, hrest⟩ := List.nodup_cons.1 h
    rcases List.mem_cons.1 hentry with rfl | hmem
    · have hnone : rest.filter (·.1 = entry.1) = [] :=
        List.filter_eq_nil_iff.2 fun other hother heq =>
          hfirst (List.mem_map.2 ⟨other, hother, of_decide_eq_true heq⟩)
      rw [List.filter_cons_of_pos (by simp), hnone]
    · have hne : first.1 ≠ entry.1 := fun heq => hfirst (List.mem_map.2 ⟨entry, hmem, heq.symm⟩)
      rw [List.filter_cons_of_neg (by simpa using hne), ih hrest hmem]

/-- An object that names each of its fields once has these fields. -/
theorem fields?_object {entries : List (String × Json)} (h : (entries.map (·.1)).Nodup) :
    (object entries).fields? (entries.map (·.1)) = some (entries.map fun entry => some entry.2) := by
  rw [fields?, List.mapM_map]
  refine mapM_eq_some_map fun entry hentry => ?_
  simp only [Function.comp_apply, filter_key h hentry]

theorem required_eq_bind (read? : Json → Option α) (field : Option Json) : required read? field = field.bind read? := by
  cases field <;> rfl

/-! ## Values that can be read again -/

/-- Whether a value can be read from what is written of it, with any number of levels that is enough. -/
def ReadsBack (read? : Nat → Json → Option α) (write : α → Json) (a : α) : Prop :=
  ∀ levels, (write a).depth ≤ levels → read? levels (write a) = some a

theorem intBetween?_int {low high n : Int} (hlow : low ≤ n) (hhigh : n ≤ high) :
    intBetween? low high (int n) = some n := by
  simp [intBetween?, hlow, hhigh]

theorem uint32?_toNat (n : UInt32) : uint32? (int n.toNat) = some n := by
  have hlt := n.toNat_lt
  have hhigh : (n.toNat : Int) ≤ Int.ofNat UInt32.size - 1 := by
    rw [UInt32.size, Int.ofNat_eq_natCast]
    omega
  rw [uint32?, intBetween?_int (by omega) hhigh]
  simp

theorem uint64?_toNat (n : UInt64) : uint64? (int n.toNat) = some n := by
  have hlt := n.toNat_lt
  have hhigh : (n.toNat : Int) ≤ Int.ofNat UInt64.size - 1 := by
    rw [UInt64.size, Int.ofNat_eq_natCast]
    omega
  rw [uint64?, intBetween?_int (by omega) hhigh]
  simp

theorem int64?_toInt (n : Int64) : int64? (int n.toInt) = some n := by
  rw [int64?, intBetween?_int n.minValue_le_toInt n.toInt_le, Option.map_some, Int64.ofInt_toInt]

/-- A field that may be missing is written as `null` where it is. -/
theorem optional_ofOption {read? : Json → Option α} {write : α → Json} {value : Option α}
    (h : ∀ a ∈ value, write a ≠ null ∧ read? (write a) = some a) :
    optional read? (some (ofOption write value)) = some value := by
  cases value with
  | none => rfl
  | some a =>
    obtain ⟨hnull, hread⟩ := h a rfl
    rw [ofOption, optional, hread]
    · rfl
    · exact hnull

/-- A field that may be missing can be read again if what is in it can. -/
theorem optional_of_readsBack {read? : Nat → Json → Option α} {write : α → Json} {value : Option α} {levels : Nat}
    (h : ∀ a ∈ value, write a ≠ null ∧ ReadsBack read? write a) (hdepth : (ofOption write value).depth ≤ levels) :
    optional (read? levels) (some (ofOption write value)) = some value := by
  refine optional_ofOption fun a ha => ⟨(h a ha).1, (h a ha).2 levels ?_⟩
  obtain rfl := Option.mem_def.1 ha
  exact hdepth

theorem readsBack_list {read? : Nat → Json → Option α} {write : α → Json} {values : List α}
    (h : ∀ a ∈ values, ReadsBack read? write a) :
    ReadsBack (list? read?) (fun values => list (values.map write)) values := by
  intro levels hdepth
  cases levels with
  | zero => simp [depth] at hdepth
  | succ levels =>
    have hitems : depthItems (values.map write) ≤ levels := Nat.le_of_succ_le_succ hdepth
    have hread : ∀ a ∈ values, (read? levels ∘ write) a = some a := fun a ha =>
      h a ha levels (Nat.le_trans (depth_le_depthItems (List.mem_map_of_mem ha)) hitems)
    rw [list?, List.mapM_map, mapM_eq_some_map (g := id) hread, List.map_id]

theorem readsBack_texts (values : List String) : ReadsBack texts? texts values := by
  have htext : ∀ value ∈ values, ReadsBack (fun _ => text?) text value := fun _ _ _ _ => rfl
  exact readsBack_list htext

/-! ## What a field was read from -/

/-- Whether a value is read with fewer levels than given. -/
def ReadBelow (read? : Nat → Json → Option α) (levels : Nat) (value : Json) (a : α) : Prop :=
  ∃ fewer < levels, read? fewer value = some a

theorem ReadBelow.mono {read? : Nat → Json → Option α} {levels more : Nat} {value : Json} {a : α}
    (h : ReadBelow read? levels value a) (hle : levels ≤ more) : ReadBelow read? more value a := by
  obtain ⟨fewer, hfewer, hread⟩ := h
  exact ⟨fewer, Nat.lt_of_lt_of_le hfewer hle, hread⟩

/-- The value in a field that may be missing or `null`. -/
def given : Option Json → List Json
  | none => []
  | some null => []
  | some value => [value]

/-- The values in a field that holds a list and may be missing. -/
def items : Option Json → List Json
  | some (list values) => values
  | _ => []

theorem forall₂_given {read? : Nat → Json → Option α} {levels : Nat} {field : Option Json} {result : Option α}
    (h : optional (read? levels) field = some result) :
    List.Forall₂ (ReadBelow read? (levels + 1)) (given field) result.toList := by
  unfold optional at h
  split at h
  case h_1 =>
    cases h
    exact .nil
  case h_2 =>
    cases h
    exact .nil
  case h_3 value hnull =>
    obtain ⟨a, hread, rfl⟩ := Option.map_eq_some_iff.1 h
    rw [given]
    · exact .cons ⟨levels, Nat.lt_succ_self levels, hread⟩ .nil
    · exact hnull

theorem forall₂_items {read? : Nat → Json → Option α} {levels : Nat} {field : Option Json} {results : List α}
    (h : defaulting [] (list? read? levels) field = some results) :
    List.Forall₂ (ReadBelow read? levels) (items field) results := by
  cases field with
  | none =>
    cases h
    exact .nil
  | some value =>
    rw [defaulting] at h
    unfold list? at h
    split at h
    case h_1 levels values =>
      exact (forall₂_of_mapM_eq_some h).imp fun _ _ hread => ⟨levels, Nat.lt_succ_self levels, hread⟩
    case h_2 => cases h

end Json

/-! ## Places -/

theorem Location.toJson_ne_null (location : Location) : location.toJson ≠ .null := by
  simp [toJson]

theorem Location.readsBack (location : Location) : Json.ReadsBack ofJson? toJson location := by
  intro levels hdepth
  obtain ⟨levels, rfl, -⟩ := Json.exists_levels hdepth
  have hfields : location.toJson.fields? fieldNames =
      some [some (.text location.filename), some (.int location.line.toNat)] :=
    Json.fields?_object (show fieldNames.Nodup by decide)
  rw [ofJson?, hfields]
  simp only [Option.bind_eq_bind, Option.bind_some, Json.required, Json.defaulting, Json.text?, Json.uint32?_toNat]
  rfl

end HeaderCatalog
