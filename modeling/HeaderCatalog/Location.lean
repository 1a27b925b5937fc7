set_option autoImplicit false

/-!
# Locations

A front end reports where a declaration stands as a file and a line (`Location`).  Against the settings of a run this
becomes a `Source`: the same place, together with the framework it belongs to and where that framework comes from.
-/

namespace HeaderCatalog

/-- A file and a line in it, as reported. -/
structure Location where
  filename : String
  line : UInt32 := 0
  deriving DecidableEq, Repr, Inhabited

/-- Where the file of a declaration comes from. -/
inductive Origin where
  /-- Under the root of the SDK. -/
  | system
  /-- In a framework bundle outside the SDK. -/
  | framework
  /-- Anywhere else, also nowhere. -/
  | user
  deriving DecidableEq, Repr, Inhabited

/-- The word for an origin. -/
def Origin.word : Origin → String
  | system => "system"
  | framework => "framework"
  | user => "user"

/-- The origin with a word. -/
def Origin.ofWord? (s : String) : Option Origin :=
  if s = "system" then some .system
  else if s = "framework" then some .framework
  else if s = "user" then some .user
  else none

@[simp] theorem Origin.ofWord?_word (origin : Origin) : Origin.ofWord? origin.word = some origin := by
  cases origin <;> decide

/-- The place of a declaration, classified. -/
structure Source where
  filename : String
  line : UInt32
  /-- The framework the declaration belongs to, empty if there is none. -/
  framework : String
  origin : Origin
  deriving DecidableEq, Repr

namespace Source

/-- The source of a declaration that the front end could not place. -/
def unresolved : Source := ⟨"", 0, "", .user⟩

instance : Inhabited Source := ⟨unresolved⟩

/-- Whether the front end could not place the declaration. -/
def isUnresolved (source : Source) : Bool := source.filename.isEmpty

/-- Whether the declaration comes with the SDK. -/
def isSystem (source : Source) : Bool := source.origin == .system

end Source

end HeaderCatalog
