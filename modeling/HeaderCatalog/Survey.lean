import HeaderCatalog.Session

set_option autoImplicit false

/-!
# Surveying a syntax tree

A survey walks the tree of a compiled unit once.  The walk itself depends on the settings alone: it turns the tree
into the list of declarations it comes upon, each with what is to be done about it (`encounters`).  Wrappers are looked
through.  A declaration that does not apply, or whose place is left out, hides what is inside it; one of a kind that has
no entry is passed on the way to what is inside.

The session then goes along that list (`Session.meet`).  An unnamed record waits for the typedef that comes next: any
other declaration that is come upon, even one that is left out, makes it be forgotten.
-/

namespace HeaderCatalog

/-! ## Coming upon declarations -/

/-- What is done about a declaration that is come upon. -/
inductive Treatment where
  /-- It does not apply or is left out. -/
  | skip
  /-- It has no entry itself. -/
  | pass
  /-- It is described. -/
  | describe
  deriving DecidableEq, Repr

/-- A declaration that is come upon. -/
structure Encounter where
  node : Node
  treatment : Treatment

/-- Whether declarations of a kind are described. -/
def NodeKind.isDescribed : NodeKind → Bool
  | interface | protocol | category | record _ | enum | function | global | synonym => true
  | _ => false

/-- Whether a declaration is left out with all that is inside it. -/
def Settings.skips (settings : Settings) (node : Node) : Bool :=
  !node.isAvailable settings.minVersion || settings.excludes (settings.classify node.location)

namespace Node

mutual

/-- What a walk comes upon at a node. -/
def encounters (settings : Settings) (node : Node) : List Encounter :=
  match node with
  | { kind, name, location, type, resultType, encoding, value, optional, attributes, availability, referenced,
      children } =>
    let node : Node :=
      { kind, name, location, type, resultType, encoding, value, optional, attributes, availability, referenced,
        children }
    if kind.isTransparent then encountersIn settings children
    else if settings.skips node then [⟨node, .skip⟩]
    else if kind.isDescribed then [⟨node, .describe⟩]
    else ⟨node, .pass⟩ :: encountersIn settings children

/-- What a walk comes upon in a list of nodes. -/
def encountersIn (settings : Settings) : List Node → List Encounter
  | [] => []
  | node :: rest => encounters settings node ++ encountersIn settings rest

end

end Node

/-! ## Describing what is come upon -/

namespace Session

/-- Works on a declaration: describes it, takes over the notes, and registers the entry, if there is one. -/
def work (session : Session) (ref : EntryRef) (describe : Surroundings → Noted (Option Entry)) : Session :=
  let begun := session.begin ref
  let noted := describe begun.surroundings
  let absorbed := begun.absorb noted
  (match noted.value with
    | some entry => absorbed.register entry
    | none => absorbed).finish

/-- Works on a declaration that must have a name; one without is passed over. -/
def workNamed (session : Session) (kind : EntryKind) (node : Node) (describe : Surroundings → Noted Entry) : Session :=
  if node.name.isEmpty then session
  else session.work ⟨kind, node.name⟩ fun here => some <$> describe here

/-- Describes a record; one without a name waits for it. -/
def describeRecord (session : Session) (kind : RecordKind) (node : Node) : Session :=
  let begun := session.begin ⟨.record kind, node.name⟩
  let noted := begun.surroundings.record kind node
  let absorbed := begun.absorb noted
  (if noted.value.isAnonymous then { absorbed with pending := some noted.value }
    else absorbed.register (.record noted.value)).finish

/-- Registers the constants of an enumeration without a name. -/
def describeConstants (session : Session) (node : Node) : Session :=
  let noted := session.surroundings.anonymousConstants node
  noted.value.foldl (fun session constant => session.register (.global constant)) (session.absorb noted)

/-- Whether a typedef names an unnamed record of a kind.  A typedef that does not say what is behind it may. -/
def namesRecord (node : Node) (kind : RecordKind) : Bool :=
  match node.type with
  | none => true
  | some handle => handle.unnamedRecord? = some kind

/-- Describes a typedef; the record that waits takes its name if it is the one behind it, and is forgotten if not. -/
def describeSynonym (session : Session) (node : Node) : Session :=
  let dropped := session.dropPending
  if node.name.isEmpty then dropped
  else
    match session.pending.filter (namesRecord node ·.kind) with
    | some unnamed =>
      let record := unnamed.rename node.name
      let begun := (dropped.begin ⟨.synonym, node.name⟩).register (.record record)
      let noted := begun.surroundings.synonymOfRecord record node
      ((begun.absorb noted).register (.synonym noted.value)).finish
    | none => dropped.work ⟨.synonym, node.name⟩ fun here => (some ∘ Entry.synonym) <$> here.synonym node

/-- Describes a declaration by its kind. -/
def describe (session : Session) (node : Node) : Session :=
  match node.kind with
  | .interface => session.workNamed .class_ node fun here => .class_ <$> here.interface node
  | .protocol => session.workNamed .protocol node fun here => .class_ <$> here.protocol node
  | .category =>
    let extended := ((Surroundings.extendedClass? node).map (·.name)).getD ""
    session.work ⟨.extension, extended⟩ fun here => Option.map .class_ <$> here.category? node
  | .record kind => session.describeRecord kind node
  | .enum =>
    if Surroundings.isAnonymousEnum node then session.describeConstants node
    else session.work ⟨.enum, node.name⟩ fun here => (some ∘ Entry.enum) <$> here.enum node
  | .function => session.workNamed .function node fun here => .function <$> here.function node
  | .global => session.workNamed .global node fun here => .global <$> here.global node
  | .synonym => session.describeSynonym node
  | _ => session

/-- Meets a declaration. -/
def meet (session : Session) (encounter : Encounter) : Session :=
  let session := if encounter.node.kind = .synonym then session else session.dropPending
  match encounter.treatment with
  | .skip | .pass => session
  | .describe => session.describe encounter.node

/-- Meets the declarations of a list of nodes. -/
def walk (session : Session) (nodes : List Node) : Session :=
  (Node.encountersIn session.settings nodes).foldl meet session

end Session

/-- The session after a run over the tree of a compiled unit. -/
def survey (root : Node) (settings : Settings) : Session := ((Session.start settings).walk root.children).dropPending

end HeaderCatalog
