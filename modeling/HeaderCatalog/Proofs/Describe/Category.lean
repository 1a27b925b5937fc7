import HeaderCatalog.Proofs.Describe.Heading
import HeaderCatalog.Proofs.Registry.Keys

set_option autoImplicit false

/-!
# Categories child by child, and all at once

A declaration with methods is described one child after another, each kind of child in its own list of the entry.  Taken
together, each list is what the children of that kind yield, in order (`value_withChildren`): a child of another kind in
between makes no difference to it.

The same holds of the categories of a class.  `extensionOf` says what some of them come to without merging anything, and
`merge_extensionOf` that merging one more comes to the same.
-/

namespace HeaderCatalog

/-- Whether declarations of a kind are methods. -/
def NodeKind.isMethod : NodeKind → Bool
  | instanceMethod | classMethod => true
  | _ => false

/-- The children of some kinds that apply, in order. -/
def Settings.members (settings : Settings) (isOfKind : NodeKind → Bool) (children : List Node) : List Node :=
  children.filter fun child => isOfKind child.kind && child.isAvailable settings.minVersion

namespace Surroundings

variable (here : Surroundings)

/-! ## Children -/

/-- The entry with a list of children taken into account together. -/
def gather (entry : ClassEntry) (children : List Node) : ClassEntry :=
  let members (isOfKind : NodeKind → Bool) := here.settings.members isOfKind children
  { entry with
    superclass := ((children.filter (·.kind = .superclassRef)).getLast?.map (·.name)).or entry.superclass
    protocols := ((children.filter (·.kind = .protocolRef)).map (·.name)).foldl addOnce entry.protocols
    methods := entry.methods ++
      (members (·.isMethod)).map fun child => (here.method entry.heading.name child).value
    properties := entry.properties ++ (members (· = .property)).map fun child => (here.property child).value
    ivars := entry.ivars ++ (members (· = .ivar)).map fun child => (here.ivar child).value }

@[simp] theorem gather_nil (entry : ClassEntry) : here.gather entry [] = entry := by
  simp [gather, Settings.members]

theorem gather_append (entry : ClassEntry) (first second : List Node) :
    here.gather entry (first ++ second) = here.gather (here.gather entry first) second := by
  simp [gather, Settings.members, List.getLast?_append, Option.map_or, Option.or_assoc]

theorem value_withChild (entry : ClassEntry) (child : Node) :
    (here.withChild entry child).value = here.gather entry [child] := by
  cases hkind : child.kind with
  | superclassRef | protocolRef =>
    simp [withChild, gather, Settings.members, hkind, NodeKind.isMethod, ClassEntry.adopt]
  | _ =>
    by_cases havailable : child.isAvailable here.settings.minVersion = true <;>
      simp [withChild, gather, Settings.members, hkind, NodeKind.isMethod, havailable]

theorem value_withChildren (entry : ClassEntry) (node : Node) :
    (here.withChildren entry node).value = here.gather entry node.children := by
  unfold withChildren
  induction node.children generalizing entry with
  | nil => exact (here.gather_nil entry).symm
  | cons child rest ih =>
    rw [List.foldlM_cons, Noted.value_bind, ih, value_withChild, ← gather_append, List.singleton_append]

end Surroundings

/-! ## Categories -/

/-- A declaration that is described, and what is known of named types by then. -/
structure Description where
  node : Node
  lookup : Lookup

/-- Where a description is made. -/
def Settings.surroundings (settings : Settings) (description : Description) : Surroundings :=
  ⟨settings, description.lookup, settings.classify description.node.location⟩

namespace Node

/-- Whether a declaration is a category of the class with a name. -/
def isCategoryOf (name : String) (node : Node) : Bool :=
  node.kind = .category && (node.child? .classRef).any (·.name = name)

theorem isCategoryOf_iff {name : String} {node : Node} :
    node.isCategoryOf name = true ↔
      node.kind = .category ∧ ∃ extended, node.child? .classRef = some extended ∧ extended.name = name := by
  cases hextended : node.child? .classRef <;> simp [isCategoryOf, hextended]

/-- The name of a category, if it has one. -/
def categoryNames (node : Node) : List String := if node.name.isEmpty then [] else [node.name]

/-- The superclass that a declaration refers to; the last reference counts. -/
def superclass? (node : Node) : Option String := (node.childrenOf .superclassRef).getLast?.map (·.name)

/-- The protocols that a declaration refers to, repetitions included. -/
def protocolNames (node : Node) : List String := (node.childrenOf .protocolRef).map (·.name)

end Node

namespace Settings

variable (settings : Settings) (owner : String)

/-- The methods of a declaration that apply. -/
def methodsOf (description : Description) : List Method :=
  (settings.members (·.isMethod) description.node.children).map fun child =>
    ((settings.surroundings description).method owner child).value

/-- The properties of a declaration that apply. -/
def propertiesOf (description : Description) : List Property :=
  (settings.members (· = .property) description.node.children).map fun child =>
    ((settings.surroundings description).property child).value

/-- The instance variables of a declaration that apply. -/
def ivarsOf (description : Description) : List Ivar :=
  (settings.members (· = .ivar) description.node.children).map fun child =>
    ((settings.surroundings description).ivar child).value

/-- What the categories of a class come to: place, version and superclass of the first one, the members of all of them,
and every name and protocol once. -/
def extensionOf (first : Description) (rest : List Description) : ClassEntry where
  kind := .extension
  heading := settings.headingOf .extension owner first.node
  superclass := first.node.superclass?
  categories := ((first :: rest).flatMap (·.node.categoryNames)).eraseDups
  protocols := ((first :: rest).flatMap (·.node.protocolNames)).eraseDups
  methods := (first :: rest).flatMap (settings.methodsOf owner)
  properties := (first :: rest).flatMap settings.propertiesOf
  ivars := (first :: rest).flatMap settings.ivarsOf

/-- What the categories of a class come to, if there are any. -/
def extension? : List Description → Option ClassEntry
  | [] => none
  | first :: rest => some (settings.extensionOf owner first rest)

variable {settings owner}

/-- A further category puts its members behind those of the others. -/
theorem merge_extensionOf (first last : Description) (rest : List Description) :
    (settings.extensionOf owner first rest).merge (settings.extensionOf owner last []) =
      settings.extensionOf owner first (rest ++ [last]) := by
  have hunion (names : Description → List String) :
      (names last).eraseDups.foldl addOnce ((first :: rest).flatMap names).eraseDups =
        (((first :: rest) ++ [last]).flatMap names).eraseDups := by
    rw [foldl_addOnce, eraseDups_append_eraseDups, List.flatMap_append, List.flatMap_singleton]
  simp only [extensionOf, ClassEntry.merge, ← List.cons_append, List.flatMap_singleton, hunion]
  simp only [List.flatMap_append, List.flatMap_singleton]

/-- Merging the categories of a class one after the other, from the first one on. -/
theorem foldl_merge_extensionOf (first : Description) (rest : List Description) :
    (rest.map fun description => settings.extensionOf owner description []).foldl ClassEntry.merge
      (settings.extensionOf owner first []) = settings.extensionOf owner first rest := by
  induction rest using List.reverseRecOn with
  | nil => rfl
  | append_singleton rest last ih =>
    rw [List.map_append, List.foldl_append, ih, ← merge_extensionOf]
    rfl

end Settings

/-- A single category becomes the extension of its class. -/
theorem Surroundings.value_category? (here : Surroundings) {node extended : Node}
    (h : extendedClass? node = some extended) :
    (here.category? node).value = some (here.settings.extensionOf extended.name ⟨node, here.lookup⟩ []) := by
  have hcategories : node.categoryNames.eraseDups = node.categoryNames := by
    unfold Node.categoryNames
    split <;> rfl
  have hprotocols : node.protocolNames.foldl addOnce [] = node.protocolNames.eraseDups := foldl_addOnce [] _
  simp only [category?, h, Noted.value_bind, Noted.value_pure, value_withChildren, gather, Settings.extensionOf,
    List.flatMap_singleton, Option.or_none, List.nil_append, hcategories, ← hprotocols]
  rfl

end HeaderCatalog
