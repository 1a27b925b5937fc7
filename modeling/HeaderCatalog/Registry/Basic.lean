import HeaderCatalog.Entry.Basic
import HeaderCatalog.Resolution.Lookup

set_option autoImplicit false

/-!
# The registry

All entries of a run, in order of first mention, under the key made of their kind and name; blocks are further told
apart by framework.  A repeated declaration is kept or dropped by the rule of `Named.insert`, except that the categories
of a class are merged into one entry.

What resolution may ask of the registry is `lookup`: records with members and typedefs that could be reduced.
-/

namespace HeaderCatalog

/-- What tells entries apart. -/
structure EntryKey where
  kind : EntryKind
  /-- The framework of a block, empty for other entries. -/
  framework : String := ""
  name : String
  deriving DecidableEq, Repr

/-- The key of an entry. -/
def Entry.key (entry : Entry) : EntryKey :=
  match entry with
  | .block b => ⟨.block, b.framework, b.signature⟩
  | entry => { kind := entry.kind, name := entry.name }

/-- Entries in order of first mention. -/
abbrev Registry := Named EntryKey Entry

namespace Registry

/-- The registry of a run that has met nothing. -/
def empty : Registry := Named.empty

/-- The entry of a category together with what is there of its class. -/
def merged (registry : Registry) (category : ClassEntry) : ClassEntry :=
  match registry.find? (Entry.class_ category).key with
  | some (.class_ earlier) => earlier.merge category
  | _ => category

/-- Whether registering an entry would change the registry's mind: a category is always taken, another entry where its
key accepts it. -/
def takes (registry : Registry) (entry : Entry) : Bool :=
  entry.kind = .extension || registry.accepts entry.key entry

/-- Registers an entry. -/
def register (registry : Registry) (entry : Entry) : Registry :=
  match entry with
  | .class_ category =>
    if category.kind = .extension then registry.put entry.key (.class_ (registry.merged category))
    else registry.insert entry.key entry
  | entry => registry.insert entry.key entry

/-! ## What is registered -/

/-- The entries of a kind, in order. -/
def ofKind (registry : Registry) (kind : EntryKind) : List Entry := registry.values.filter (·.kind = kind)

/-- The names of the entries of a kind, in order. -/
def names (registry : Registry) (kind : EntryKind) : List String := (registry.ofKind kind).map (·.name)

/-- The entry of a kind with a name; blocks are found by `block?`. -/
def entry? (registry : Registry) (kind : EntryKind) (name : String) : Option Entry :=
  registry.find? { kind, name }

/-- The class with a name. -/
def class? (registry : Registry) (name : String) : Option ClassEntry :=
  match registry.entry? .class_ name with
  | some (.class_ entry) => some entry
  | _ => none

/-- The record of a kind with a name. -/
def record? (registry : Registry) (kind : RecordKind) (name : String) : Option RecordEntry :=
  match registry.entry? (.record kind) name with
  | some (.record entry) => some entry
  | _ => none

/-- The enumeration with a name. -/
def enum? (registry : Registry) (name : String) : Option EnumEntry :=
  match registry.entry? .enum name with
  | some (.enum entry) => some entry
  | _ => none

/-- The typedef with a name. -/
def synonym? (registry : Registry) (name : String) : Option SynonymEntry :=
  match registry.entry? .synonym name with
  | some (.synonym entry) => some entry
  | _ => none

/-- The block of a framework with a signature. -/
def block? (registry : Registry) (framework signature : String) : Option Block :=
  match registry.find? ⟨.block, framework, signature⟩ with
  | some (.block block) => some block
  | _ => none

/-- All blocks, in order. -/
def blocks (registry : Registry) : List Block :=
  registry.values.filterMap fun
    | .block block => some block
    | _ => none

/-- The frameworks that have blocks, in order of first mention. -/
def blockFrameworks (registry : Registry) : List String := (registry.blocks.map (·.framework)).eraseDups

/-- The blocks of a framework, in order. -/
def blocksOf (registry : Registry) (framework : String) : List Block :=
  registry.blocks.filter (·.framework = framework)

/-- The encodings of the members of a record; nothing is known of the members of a record without fields. -/
def members? (registry : Registry) (kind : RecordKind) (name : String) : Option (List Encoding) :=
  match registry.record? kind name with
  | some entry => if entry.fields.isEmpty then none else some entry.memberEncodings
  | none => none

/-- The type behind a typedef, if it could be reduced. -/
def synonymType? (registry : Registry) (name : String) : Option ResolvedType :=
  match registry.synonym? name with
  | some entry => if entry.type.isUnknown then none else some entry.type
  | none => none

/-- What the registry knows of named types. -/
def lookup (registry : Registry) : Lookup := ⟨registry.members?, registry.synonymType?⟩

end Registry

end HeaderCatalog
