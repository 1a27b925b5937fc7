import HeaderCatalog.Entry.Basic

set_option autoImplicit false

/-!
# Types and blocks inside entries

An argument, a returned value, a property and an instance variable have in common that they are a type and carry the
description of the block that this is, if it is one.  `Member` is what they have in common, and an entry is looked
through by its members: `Entry.blocks` lists every block that is stored somewhere in it, at any depth, and `Entry.types`
every type.
-/

namespace HeaderCatalog

/-! ## Blocks inside blocks -/

namespace Block

mutual

/-- A block and the blocks inside it, the inner ones before the outer one. -/
def within : Block → List Block
  | { heading, signature, returns, arguments, encoding, variadic } =>
    withinArguments arguments ++ [{ heading, signature, returns, arguments, encoding, variadic }]

/-- The blocks inside arguments. -/
def withinArguments : List Argument → List Block
  | [] => []
  | { block, .. } :: rest => withinOptional block ++ withinArguments rest

/-- The blocks inside a block that may be none. -/
def withinOptional : Option Block → List Block
  | none => []
  | some block => block.within

end

/-- The types of a block itself: what it returns and what it takes. -/
def ownTypes (block : Block) : List ResolvedType := block.returns :: block.arguments.map (·.type)

theorem within_eq (block : Block) : block.within = withinArguments block.arguments ++ [block] := by
  cases block
  rfl

theorem withinArguments_eq_flatMap (arguments : List Argument) :
    withinArguments arguments = arguments.flatMap fun argument => withinOptional argument.block := by
  induction arguments with
  | nil => rfl
  | cons argument rest ih =>
    obtain ⟨name, type, block⟩ := argument
    rw [withinArguments, ih, List.flatMap_cons]

end Block

/-! ## Members -/

/-- A type and the block that it is, if it is one. -/
structure Member where
  type : ResolvedType
  block : Option Block := none

/-- The blocks of a member, at any depth. -/
def Member.blocks (member : Member) : List Block := Block.withinOptional member.block

/-- The type and the block of an argument. -/
def Argument.member (argument : Argument) : Member := ⟨argument.type, argument.block⟩

/-- The type and the block of a returned value. -/
def Returned.member (returned : Returned) : Member := ⟨returned.type, returned.block⟩

/-- The type and the block of a property. -/
def Property.member (property : Property) : Member := ⟨property.type, property.block⟩

/-- The type and the block of an instance variable. -/
def Ivar.member (ivar : Ivar) : Member := ⟨ivar.type, ivar.block⟩

/-- What a method returns and what it takes. -/
def Method.members (method : Method) : List Member := method.returns.member :: method.arguments.map (·.member)

/-- What a function returns and what it takes. -/
def FunctionEntry.members (entry : FunctionEntry) : List Member :=
  entry.returns.member :: entry.arguments.map (·.member)

/-- The members of the methods, the properties and the instance variables. -/
def ClassEntry.members (entry : ClassEntry) : List Member :=
  entry.methods.flatMap (·.members) ++ entry.properties.map (·.member) ++ entry.ivars.map (·.member)

theorem ClassEntry.forall_mem_members {entry : ClassEntry} {P : Member → Prop} :
    (∀ member ∈ entry.members, P member) ↔ (∀ method ∈ entry.methods, ∀ member ∈ method.members, P member) ∧
      (∀ property ∈ entry.properties, P property.member) ∧ ∀ ivar ∈ entry.ivars, P ivar.member := by
  simp only [members, List.forall_mem_append, List.forall_mem_flatMap, List.forall_mem_map, and_assoc]

/-- Merging categories puts their members together. -/
theorem ClassEntry.forall_mem_members_merge {entry other : ClassEntry} {P : Member → Prop}
    (h : ∀ member ∈ entry.members, P member) (hother : ∀ member ∈ other.members, P member) :
    ∀ member ∈ (entry.merge other).members, P member := by
  obtain ⟨hmethods, hproperties, hivars⟩ := forall_mem_members.1 h
  obtain ⟨hmethods', hproperties', hivars'⟩ := forall_mem_members.1 hother
  exact forall_mem_members.2 ⟨List.forall_mem_append.2 ⟨hmethods, hmethods'⟩,
    List.forall_mem_append.2 ⟨hproperties, hproperties'⟩, List.forall_mem_append.2 ⟨hivars, hivars'⟩⟩

namespace Entry

/-- The types of an entry that are not inside a block, each with the block that it is. -/
def members : Entry → List Member
  | class_ entry => entry.members
  | record entry => entry.fields.map fun field => { type := field.type }
  | enum entry => [{ type := entry.type }]
  | global entry => [{ type := entry.type }]
  | function entry => entry.members
  | block _ => []
  | synonym entry => [{ type := entry.type }]

/-- The blocks stored in an entry, at any depth. -/
def blocks : Entry → List Block
  | block entry => entry.within
  | entry => entry.members.flatMap (·.blocks)

/-- The types stored in an entry, at any depth. -/
def types (entry : Entry) : List ResolvedType := entry.members.map (·.type) ++ entry.blocks.flatMap (·.ownTypes)

/-- Apart from a block, the blocks of an entry are those of its members. -/
theorem blocks_eq {entry : Entry} (h : entry.kind ≠ .block) : entry.blocks = entry.members.flatMap (·.blocks) := by
  cases entry with
  | block entry => exact absurd rfl h
  | _ => rfl

end Entry

end HeaderCatalog
