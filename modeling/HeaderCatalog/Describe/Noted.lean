import HeaderCatalog.Entry.Block

set_option autoImplicit false

/-!
# What is noted on the way

Describing a declaration yields an entry and, on the way, notes: which place was looked at last, which declarations were
referred to, and which blocks were met.  Nothing noted is read again while the description goes on, so a description
is a value together with its notes, and two descriptions follow one another by putting their notes one after the
other.
-/

namespace HeaderCatalog

/-- A value and what was noted while it was made. -/
structure Noted (α : Type) where
  value : α
  /-- The place looked at last, if any. -/
  located : Option Source := none
  /-- The declarations referred to, in order. -/
  references : List Location := []
  /-- The blocks met, the inner ones before the outer one. -/
  blocks : List Block := []

namespace Noted

variable {α β γ : Type}

/-- Two descriptions that are equal in value and notes are equal. -/
theorem ext {x y : Noted α} (hv : x.value = y.value) (hl : x.located = y.located) (hr : x.references = y.references)
    (hb : x.blocks = y.blocks) : x = y := by
  cases x; cases y; simp_all

/-- A value without notes. -/
def unnoted (value : α) : Noted α := { value }

/-- One description after another. -/
def andThen (x : Noted α) (f : α → Noted β) : Noted β where
  value := (f x.value).value
  located := (f x.value).located.or x.located
  references := x.references ++ (f x.value).references
  blocks := x.blocks ++ (f x.value).blocks

instance : Monad Noted where
  pure := unnoted
  bind := andThen

@[simp] theorem value_pure (a : α) : (pure a : Noted α).value = a := rfl

@[simp] theorem located_pure (a : α) : (pure a : Noted α).located = none := rfl

@[simp] theorem references_pure (a : α) : (pure a : Noted α).references = [] := rfl

@[simp] theorem blocks_pure (a : α) : (pure a : Noted α).blocks = [] := rfl

@[simp] theorem value_bind (x : Noted α) (f : α → Noted β) : (x >>= f).value = (f x.value).value := rfl

@[simp] theorem located_bind (x : Noted α) (f : α → Noted β) :
    (x >>= f).located = (f x.value).located.or x.located := rfl

@[simp] theorem references_bind (x : Noted α) (f : α → Noted β) :
    (x >>= f).references = x.references ++ (f x.value).references := rfl

@[simp] theorem blocks_bind (x : Noted α) (f : α → Noted β) : (x >>= f).blocks = x.blocks ++ (f x.value).blocks := rfl

@[simp] theorem value_map (f : α → β) (x : Noted α) : (f <$> x).value = f x.value := rfl

@[simp] theorem located_map (f : α → β) (x : Noted α) : (f <$> x).located = x.located := Option.none_or

@[simp] theorem references_map (f : α → β) (x : Noted α) : (f <$> x).references = x.references :=
  List.append_nil x.references

@[simp] theorem blocks_map (f : α → β) (x : Noted α) : (f <$> x).blocks = x.blocks := List.append_nil x.blocks

instance : LawfulMonad Noted :=
  .mk' Noted
    (fun x => ext rfl (Option.none_or : none.or x.located = x.located) (List.append_nil x.references)
      (List.append_nil x.blocks))
    (fun a f => ext rfl (by simp) (by simp) (by simp))
    (fun x f g => ext rfl (by simp [Option.or_assoc]) (by simp) (by simp))

/-- Notes a reference, if there is one. -/
def refer (location : Option Location) : Noted Unit := { value := (), references := location.toList }

/-- Notes the block that a description yields, behind the blocks inside it. -/
def collect (x : Noted (Option Block)) : Noted (Option Block) := { x with blocks := x.blocks ++ x.value.toList }

end Noted

end HeaderCatalog
