import HeaderCatalog.Describe.Entry

set_option autoImplicit false

/-!
# Headings of described entries

Whatever else a description finds out, the kind and the heading of its entry follow from the declaration and the
settings alone: the name of the node (of the class, for a category), its classified place, and the version that
introduced it.
-/

namespace HeaderCatalog

/-- The heading of a declaration as an entry of a kind under a name. -/
def Settings.headingOf (settings : Settings) (kind : EntryKind) (name : String) (node : Node) : Heading :=
  ⟨name, kind, settings.classify node.location, node.introduced?⟩

@[simp] theorem Settings.name_headingOf (settings : Settings) (kind : EntryKind) (name : String) (node : Node) :
    (settings.headingOf kind name node).name = name := rfl

@[simp] theorem Settings.source_headingOf (settings : Settings) (kind : EntryKind) (name : String) (node : Node) :
    (settings.headingOf kind name node).source = settings.classify node.location := rfl

@[simp] theorem Noted.value_mapM {α β : Type} (f : α → Noted β) (xs : List α) :
    (xs.mapM f).value = xs.map fun x => (f x).value := by
  induction xs with
  | nil => rfl
  | cons x xs ih => simp [List.mapM_cons, ih]

namespace Surroundings

variable (here : Surroundings)

/-! ## Declarations with methods -/

theorem heading_withChild (entry : ClassEntry) (child : Node) :
    (here.withChild entry child).value.kind = entry.kind ∧
      (here.withChild entry child).value.heading = entry.heading := by
  unfold withChild
  split
  · exact ⟨rfl, rfl⟩
  · exact ⟨rfl, rfl⟩
  · split
    · split <;> exact ⟨rfl, rfl⟩
    · exact ⟨rfl, rfl⟩

theorem heading_withChildren (entry : ClassEntry) (node : Node) :
    (here.withChildren entry node).value.kind = entry.kind ∧
      (here.withChildren entry node).value.heading = entry.heading := by
  unfold withChildren
  induction node.children generalizing entry with
  | nil => exact ⟨rfl, rfl⟩
  | cons child rest ih =>
    rw [List.foldlM_cons, Noted.value_bind]
    obtain ⟨hkind, hheading⟩ := here.heading_withChild entry child
    obtain ⟨hkinds, hheadings⟩ := ih (here.withChild entry child).value
    exact ⟨hkinds.trans hkind, hheadings.trans hheading⟩

theorem kind_interface (node : Node) : (here.interface node).value.kind = .class_ :=
  (heading_withChildren _ _ node).1

theorem heading_interface (node : Node) :
    (here.interface node).value.heading = here.settings.headingOf .class_ node.name node :=
  (heading_withChildren _ _ node).2

theorem kind_protocol (node : Node) : (here.protocol node).value.kind = .protocol :=
  (heading_withChildren _ _ node).1

theorem heading_protocol (node : Node) :
    (here.protocol node).value.heading = here.settings.headingOf .protocol node.name node :=
  (heading_withChildren _ _ node).2

theorem category?_of_none {node : Node} (h : extendedClass? node = none) :
    here.category? node = pure none := by
  simp [category?, h]

/-- A category that names its class is an extension under that name. -/
theorem category?_of_some {node extended : Node} (h : extendedClass? node = some extended) :
    ∃ entry : ClassEntry, (here.category? node).value = some entry ∧ entry.kind = .extension ∧
      entry.heading = here.settings.headingOf .extension extended.name node := by
  simp only [category?, h]
  exact ⟨_, rfl, (heading_withChildren _ _ node).1, (heading_withChildren _ _ node).2⟩

/-! ## Other declarations -/

/-- A record is described with its encoding put together. -/
theorem encoded_record (kind : RecordKind) (node : Node) :
    (here.record kind node).value.encoded = (here.record kind node).value := rfl

@[simp] theorem heading_enum (node : Node) :
    (here.enum node).value.heading = here.settings.headingOf .enum node.name node := rfl

@[simp] theorem heading_global (node : Node) :
    (here.global node).value.heading = here.settings.headingOf .global node.name node := rfl

@[simp] theorem heading_function (node : Node) :
    (here.function node).value.heading = here.settings.headingOf .function node.name node := by
  unfold function
  simp only [Noted.value_bind]
  split <;> rfl

@[simp] theorem heading_synonym (node : Node) :
    (here.synonym node).value.heading = here.settings.headingOf .synonym node.name node := rfl

@[simp] theorem heading_synonymOfRecord (entry : RecordEntry) (node : Node) :
    (here.synonymOfRecord entry node).value.heading = here.settings.headingOf .synonym node.name node := rfl

/-- The constants of an enumeration without a name stand at their own places under their own names. -/
theorem headings_anonymousConstants (node : Node) :
    (here.anonymousConstants node).value.map (·.heading) =
      (here.availableConstants node).map fun constant => here.settings.headingOf .global constant.name constant := by
  simp only [anonymousConstants, Noted.value_bind, Noted.value_mapM, List.map_map]
  rfl

end Surroundings

end HeaderCatalog
