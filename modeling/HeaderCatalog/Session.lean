import HeaderCatalog.Describe.Entry
import HeaderCatalog.Registry.Basic

set_option autoImplicit false

/-!
# Sessions

A session is the state of one run: what is registered, which declaration is being worked on, where, which frameworks
were referred to, and the unnamed record that waits for a typedef to name it.  Describing a declaration does not touch
the session; its notes are taken over afterwards by `absorb`.
-/

namespace HeaderCatalog

/-- A list of distinct texts in ascending order with a further one. -/
def insertSorted (value : String) : List String → List String
  | [] => [value]
  | first :: rest =>
    if value < first then value :: first :: rest
    else if value = first then first :: rest
    else first :: insertSorted value rest

/-- The state of a run. -/
structure Session where
  settings : Settings
  registry : Registry := .empty
  /-- The declaration being worked on. -/
  current : Option EntryRef := none
  /-- The declaration worked on last. -/
  previous : Option EntryRef := none
  /-- The place of the declaration looked at last. -/
  location : Source := .unresolved
  /-- The unnamed record that the next typedef may name. -/
  pending : Option RecordEntry := none
  /-- The frameworks referred to, other than that of the run, in ascending order. -/
  dependencies : List String := []

namespace Session

/-- The session at the start of a run. -/
def start (settings : Settings) : Session := { settings }

/-- Where the next description is made. -/
def surroundings (session : Session) : Surroundings :=
  ⟨session.settings, session.registry.lookup, session.location⟩

/-! ## Notes -/

/-- Notes a reference to a declaration. -/
def noteReference (session : Session) (location : Option Location) : Session :=
  let framework := (session.settings.classify location).framework
  if framework.isEmpty || framework = session.settings.frameworkName then session
  else { session with dependencies := insertSorted framework session.dependencies }

/-- Registers an entry, unless its place is left out. -/
def register (session : Session) (entry : Entry) : Session :=
  if session.settings.excludes entry.heading.source then session
  else { session with registry := session.registry.register entry }

/-- Whether registering an entry stores it. -/
def stores (session : Session) (entry : Entry) : Bool :=
  !session.settings.excludes entry.heading.source && session.registry.takes entry

/-- Takes over the notes of a description. -/
def absorb {α : Type} (session : Session) (noted : Noted α) : Session :=
  let located := { session with location := noted.located.getD session.location }
  let referred := noted.references.foldl (fun session location => session.noteReference (some location)) located
  noted.blocks.foldl (fun session block => session.register (.block block)) referred

/-! ## Progress -/

/-- Starts work on a declaration. -/
def begin (session : Session) (ref : EntryRef) : Session := { session with current := some ref }

/-- Ends work on the declaration that is being worked on, if there is one. -/
def finish (session : Session) : Session :=
  match session.current with
  | none => session
  | some ref => { session with current := none, previous := some ref }

/-- Looks at a declaration. -/
def locate (session : Session) (node : Node) : Session :=
  { session with location := session.settings.classify node.location }

/-- Forgets the unnamed record that waits for its name. -/
def dropPending (session : Session) : Session := { session with pending := none }

end Session

end HeaderCatalog
