import HeaderCatalog.Entry.Block
import HeaderCatalog.Entry.Kind
import HeaderCatalog.Naming
import HeaderCatalog.Registry.Named

set_option autoImplicit false

/-!
# Entries

One structure for each kind of declaration, and `Entry` for any of them.  Whether an entry carries information decides
which of two declarations of one name is kept: a forward declaration carries none.
-/

namespace HeaderCatalog

/-! ## Members of classes -/

/-- A method of a class, category or protocol. -/
structure Method where
  selector : String
  /-- The class or protocol that has the method. -/
  owner : String
  /-- Whether objects have the method, and not the class itself. -/
  ofInstance : Bool
  optional : Bool
  returns : Returned
  arguments : List Argument
  /-- The encoding as the front end reports it. -/
  encoding : String
  introduced : Option String
  deriving Inhabited

/-- The selector in camel case. -/
def Method.name (method : Method) : String := Naming.ofSelector method.selector

/-- A property of a class, category or protocol. -/
structure Property where
  name : String
  type : ResolvedType
  attributes : List String
  optional : Bool
  block : Option Block
  introduced : Option String
  deriving Inhabited

/-- An instance variable of a class. -/
structure Ivar where
  name : String
  type : ResolvedType
  block : Option Block
  deriving Inhabited

/-! ## Classes, categories and protocols -/

/-- The three declarations that have methods. -/
inductive ClassKind where
  | class_
  | extension
  | protocol
  deriving DecidableEq, Repr, Inhabited

/-- The kind of entry that a declaration with methods becomes. -/
def ClassKind.entryKind : ClassKind → EntryKind
  | class_ => .class_
  | extension => .extension
  | protocol => .protocol

theorem ClassKind.entryKind_ne_block (kind : ClassKind) : kind.entryKind ≠ .block := by
  cases kind <;> nofun

/-- A class, the categories of a class, or a protocol. -/
structure ClassEntry where
  /-- Which of the three it is registered as. -/
  kind : ClassKind
  heading : Heading
  superclass : Option String := none
  /-- The names of the categories taken together. -/
  categories : List String := []
  /-- The protocols adopted, each once. -/
  protocols : List String := []
  methods : List Method := []
  properties : List Property := []
  ivars : List Ivar := []
  deriving Inhabited

/-- A list with a further text at the end, unless the list has it. -/
def addOnce (values : List String) (value : String) : List String :=
  if value ∈ values then values else values ++ [value]

namespace ClassEntry

/-- The entry with a further protocol. -/
def adopt (entry : ClassEntry) (protocol : String) : ClassEntry :=
  { entry with protocols := addOnce entry.protocols protocol }

/-- The entry with the members of another category of the same class behind its own.  Categories and protocols are
named once; the superclass and the heading are those of the first category. -/
def merge (entry other : ClassEntry) : ClassEntry :=
  { entry with
    categories := other.categories.foldl addOnce entry.categories
    protocols := other.protocols.foldl addOnce entry.protocols
    methods := entry.methods ++ other.methods
    properties := entry.properties ++ other.properties
    ivars := entry.ivars ++ other.ivars }

/-- The first method with a selector. -/
def method? (entry : ClassEntry) (selector : String) : Option Method :=
  entry.methods.find? (·.selector = selector)

/-- The first property with a name. -/
def property? (entry : ClassEntry) (name : String) : Option Property :=
  entry.properties.find? (·.name = name)

/-- Whether anything follows the name; a forward declaration has no body. -/
def hasBody (entry : ClassEntry) : Bool :=
  entry.superclass.isSome || !entry.protocols.isEmpty || !entry.methods.isEmpty || !entry.properties.isEmpty ||
    !entry.ivars.isEmpty

end ClassEntry

/-! ## Records -/

/-- A field of a record. -/
structure Field where
  name : String
  type : ResolvedType
  deriving DecidableEq, Repr, Inhabited

/-- A struct or union. -/
structure RecordEntry where
  heading : Heading
  fields : List Field
  /-- The encoding, put together when the record is described and again when it is renamed. -/
  encoding : Encoding
  deriving DecidableEq, Repr, Inhabited

namespace RecordEntry

/-- The kind of record; what is not a union counts as a struct. -/
def kind (entry : RecordEntry) : RecordKind :=
  match entry.heading.kind with
  | .record kind => kind
  | _ => .struct

/-- Whether the record has no name of its own. -/
def isAnonymous (entry : RecordEntry) : Bool := Naming.isAnonymous entry.heading.name

/-- The encodings of the fields, in order. -/
def memberEncodings (entry : RecordEntry) : List Encoding := entry.fields.map (·.type.encoding)

/-- The record with its encoding put together anew: bare without fields, and with a question mark for a name it does not
have. -/
def encoded (entry : RecordEntry) : RecordEntry :=
  { entry with
    encoding := Encoding.record entry.kind (if entry.isAnonymous then "?" else entry.heading.name)
      (if entry.fields.isEmpty then none else some entry.memberEncodings) }

@[simp] theorem fields_encoded (entry : RecordEntry) : entry.encoded.fields = entry.fields := rfl

/-- The record under another name. -/
def rename (entry : RecordEntry) (name : String) : RecordEntry :=
  encoded { entry with heading := { entry.heading with name } }

/-- The type of a value of the record. -/
def asType (entry : RecordEntry) : ResolvedType := ⟨entry.kind.keyword, entry.heading.name, entry.encoding⟩

end RecordEntry

/-! ## The others -/

/-- A constant of an enumeration. -/
structure EnumCase where
  name : String
  value : Int64
  deriving DecidableEq, Repr, Inhabited

/-- An enumeration. -/
structure EnumEntry where
  heading : Heading
  /-- The integer type behind it. -/
  type : ResolvedType
  cases : List EnumCase
  deriving DecidableEq, Repr, Inhabited

/-- The value of the first constant with a name. -/
def EnumEntry.value? (entry : EnumEntry) (name : String) : Option Int64 :=
  (entry.cases.find? (·.name = name)).map (·.value)

/-- A global variable or constant. -/
structure GlobalEntry where
  heading : Heading
  type : ResolvedType
  deriving DecidableEq, Repr, Inhabited

/-- A function. -/
structure FunctionEntry where
  heading : Heading
  returns : Returned
  arguments : List Argument
  variadic : Bool
  deriving Inhabited

/-- A typedef. -/
structure SynonymEntry where
  heading : Heading
  /-- The type behind it. -/
  type : ResolvedType
  deriving DecidableEq, Repr, Inhabited

/-- An entry of any kind. -/
inductive Entry where
  | class_ (entry : ClassEntry)
  | record (entry : RecordEntry)
  | enum (entry : EnumEntry)
  | global (entry : GlobalEntry)
  | function (entry : FunctionEntry)
  | block (entry : Block)
  | synonym (entry : SynonymEntry)
  deriving Inhabited

namespace Entry

/-- The heading of an entry. -/
def heading : Entry → Heading
  | class_ entry => entry.heading
  | record entry => entry.heading
  | enum entry => entry.heading
  | global entry => entry.heading
  | function entry => entry.heading
  | block entry => entry.heading
  | synonym entry => entry.heading

/-- The name of an entry. -/
def name (entry : Entry) : String := entry.heading.name

/-- The kind that an entry is registered as. -/
def kind : Entry → EntryKind
  | class_ entry => entry.kind.entryKind
  | record entry => .record entry.kind
  | enum _ => .enum
  | global _ => .global
  | function _ => .function
  | block _ => .block
  | synonym _ => .synonym

/-- The kind and name of an entry. -/
def ref (entry : Entry) : EntryRef := ⟨entry.kind, entry.name⟩

/-- Whether an entry says more than its name.  A declaration with nothing behind its name, and a type that could not be
reduced, say no more. -/
def carriesInformation : Entry → Bool
  | class_ entry => entry.hasBody
  | record entry => !entry.fields.isEmpty
  | enum entry => !entry.cases.isEmpty
  | global entry => !entry.type.isUnknown
  | function _ => true
  | block _ => true
  | synonym entry => !entry.type.isUnknown

instance : Informative Entry := ⟨carriesInformation⟩

end Entry

end HeaderCatalog
