set_option autoImplicit false

/-!
# Collections in order of first mention

A `Named κ α` holds entries under distinct keys, in the order in which the keys were first mentioned.  Replacing an
entry keeps its place.  The rule for repeated declarations is `insert`: an entry that carries information is never
replaced by one that carries none, and otherwise the later one wins.

That the keys are distinct is part of the type.  What an operation does is said by what `find?` and `keys` see of its
result: `find?_put` and `keys_put`.
-/

namespace HeaderCatalog

/-- Types whose values may or may not say more than their name. -/
class Informative (α : Type) where
  isInformative : α → Bool

export Informative (isInformative)

/-- Entries under distinct keys, in order of first mention. -/
structure Named (κ α : Type) where
  entries : List (κ × α)
  distinct : (entries.map (·.1)).Nodup

namespace Named

variable {κ α : Type}

/-- The collection without entries. -/
def empty : Named κ α := ⟨[], by simp⟩

instance : Inhabited (Named κ α) := ⟨empty⟩

/-- The keys in order. -/
def keys (c : Named κ α) : List κ := c.entries.map (·.1)

/-- The entries in order, without their keys. -/
def values (c : Named κ α) : List α := c.entries.map (·.2)

/-- The number of entries. -/
def size (c : Named κ α) : Nat := c.entries.length

variable [DecidableEq κ]

/-- The entry under a key. -/
def find? (c : Named κ α) (key : κ) : Option α := c.entries.lookup key

/-- Whether there is an entry under a key. -/
def contains (c : Named κ α) (key : κ) : Bool := key ∈ c.keys

/-- Replaces the entry under a key, if there is one, in its place. -/
def replace (c : Named κ α) (key : κ) (value : α) : Named κ α where
  entries := c.entries.map fun entry => if entry.1 = key then (key, value) else entry
  distinct := by
    have h : (c.entries.map fun entry => if entry.1 = key then (key, value) else entry).map (·.1) =
        c.entries.map (·.1) := by
      rw [List.map_map]
      apply List.map_congr_left
      intro entry _
      by_cases h : entry.1 = key <;> simp [h]
    rw [h]
    exact c.distinct

/-- Puts an entry under a key: in the place of the one that is there, else at the end. -/
def put (c : Named κ α) (key : κ) (value : α) : Named κ α :=
  if h : key ∈ c.keys then c.replace key value
  else
    { entries := c.entries ++ [(key, value)]
      distinct := by
        rw [List.map_append, List.nodup_append]
        refine ⟨c.distinct, by simp, ?_⟩
        intro a ha b hb
        simp only [List.map_cons, List.map_nil, List.mem_singleton] at hb
        subst hb
        exact fun hab => h (hab ▸ ha) }

/-- Puts what a function makes of the entry under a key, or of a given one where there is none. -/
def update (c : Named κ α) (key : κ) (start : α) (f : α → α) : Named κ α :=
  c.put key (f ((c.find? key).getD start))

/-- Whether an entry may be put under a key: it says something, or what is there says nothing. -/
def accepts [Informative α] (c : Named κ α) (key : κ) (value : α) : Bool :=
  match c.find? key with
  | none => true
  | some earlier => !isInformative earlier || isInformative value

/-- Puts an entry under a key if the key accepts it. -/
def insert [Informative α] (c : Named κ α) (key : κ) (value : α) : Named κ α :=
  if c.accepts key value then c.put key value else c

/-! ## What the operations do -/

@[simp] theorem find?_empty (key : κ) : (empty : Named κ α).find? key = none := rfl

omit [DecidableEq κ] in
@[simp] theorem keys_empty : (empty : Named κ α).keys = [] := rfl

/-- A key is one of the keys exactly when there is an entry under it. -/
theorem find?_isSome_iff (c : Named κ α) (key : κ) : (c.find? key).isSome ↔ key ∈ c.keys := by
  unfold find? keys
  induction c.entries with
  | nil => simp
  | cons entry rest ih =>
    rw [List.lookup_cons, List.map_cons, List.mem_cons]
    by_cases h : key = entry.1
    · simp [h]
    · have hne : (key == entry.1) = false := by simpa using h
      simp only [hne, h, false_or]
      exact ih

/-- Replacing an entry changes no key. -/
@[simp] theorem keys_replace (c : Named κ α) (key : κ) (value : α) : (c.replace key value).keys = c.keys := by
  unfold replace keys
  rw [List.map_map]
  apply List.map_congr_left
  intro entry _
  by_cases h : entry.1 = key <;> simp [h]

/-- A new key comes last, an old one keeps its place. -/
theorem keys_put (c : Named κ α) (key : κ) (value : α) :
    (c.put key value).keys = if key ∈ c.keys then c.keys else c.keys ++ [key] := by
  unfold put
  split
  · simp
  · simp [keys]

/-- Replacing an entry changes what is under its key, if the key is there, and nothing else. -/
theorem find?_replace (c : Named κ α) (key other : κ) (value : α) :
    (c.replace key value).find? other = if other = key ∧ key ∈ c.keys then some value else c.find? other := by
  show (c.entries.map fun entry => if entry.1 = key then (key, value) else entry).lookup other =
    if other = key ∧ key ∈ c.entries.map (·.1) then some value else c.entries.lookup other
  induction c.entries with
  | nil => simp
  | cons entry rest ih =>
    rw [List.map_cons, List.lookup_cons, List.lookup_cons, List.map_cons]
    by_cases h₁ : entry.1 = key
    · by_cases h₂ : other = key
      · simp [h₁, h₂]
      · have h₃ : (other == key) = false := by simpa using h₂
        simp only [h₁, if_true, h₃, h₂, false_and, if_false] at ih ⊢
        exact ih
    · by_cases h₂ : other = entry.1
      · subst h₂
        simp [h₁]
      · have h₃ : (other == entry.1) = false := by simpa using h₂
        have h₄ : ¬ key = entry.1 := fun h => h₁ h.symm
        simp only [h₁, if_false, h₃, List.mem_cons, h₄, false_or] at ih ⊢
        exact ih

/-- Putting an entry changes what is under its key and nothing else. -/
theorem find?_put (c : Named κ α) (key other : κ) (value : α) :
    (c.put key value).find? other = if other = key then some value else c.find? other := by
  unfold put
  split
  · next h => rw [find?_replace]; simp [h]
  · next h =>
    have hnone : c.find? key = none := by
      have := mt (find?_isSome_iff c key).1 h
      simpa using this
    unfold find? at hnone ⊢
    rw [List.lookup_append]
    by_cases h₂ : other = key
    · subst h₂
      simp [hnone]
    · have h₃ : (other == key) = false := by simpa using h₂
      simp [h₂, h₃, List.lookup_cons]

/-- Putting an entry makes the collection larger by one exactly when its key is new. -/
theorem size_put (c : Named κ α) (key : κ) (value : α) :
    (c.put key value).size = if key ∈ c.keys then c.size else c.size + 1 := by
  unfold put size
  split
  · simp [replace]
  · simp

end Named

end HeaderCatalog
