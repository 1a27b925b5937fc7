import HeaderCatalog.Proofs.Registry.Coherent
import HeaderCatalog.Proofs.Survey.Blocks
import HeaderCatalog.Proofs.Survey.Waiting

set_option autoImplicit false

/-!
# A run registers what agrees with itself

Every description makes a coherent entry: the heading has the kind that the description is for, a block is named by the
spelling it is signed with, and the encoding of a record is put together last, from the name and the fields that are
there.  A typedef changes the name of a record behind that, so whether the record is still coherent is a matter of
`RecordEntry.rename`, and of the record that waits in the session until then.

So what is kept from one declaration to the next is that the waiting record is coherent (`CoherentPending.meet`).
Whatever is handed over along the way is coherent then (`CoherentPending.history`), and the registry of a run comes of
it.
-/

namespace HeaderCatalog

/-! ## Descriptions of coherent entries -/

namespace Surroundings

variable (here : Surroundings) (node : Node)

theorem coherent_interface : (Entry.class_ (here.interface node).value).Coherent := by
  apply Entry.coherent_class
  rw [heading_interface, kind_interface]
  rfl

theorem coherent_protocol : (Entry.class_ (here.protocol node).value).Coherent := by
  apply Entry.coherent_class
  rw [heading_protocol, kind_protocol]
  rfl

theorem coherent_category? : ∀ entry ∈ (here.category? node).value, (Entry.class_ entry).Coherent := by
  cases hextended : extendedClass? node with
  | none =>
    rw [here.category?_of_none hextended]
    intro entry hentry
    cases hentry
  | some extended =>
    obtain ⟨category, hvalue, hkind, hheading⟩ := here.category?_of_some hextended
    rw [hvalue]
    rintro entry ⟨⟩
    apply Entry.coherent_class
    rw [hheading, hkind]
    rfl

/-- The encoding of a record is put together when it is described. -/
theorem coherent_record (kind : RecordKind) : (Entry.record (here.record kind node).value).Coherent := by
  rw [← encoded_record]
  exact Entry.coherent_encoded rfl

theorem coherent_anonymousConstants :
    ∀ entry ∈ (here.anonymousConstants node).value, (Entry.global entry).Coherent := by
  unfold anonymousConstants
  rw [Noted.value_bind, Noted.value_mapM, List.forall_mem_map]
  exact fun constant _ => .of_kind rfl nofun nofun

theorem coherent_function : (Entry.function (here.function node).value).Coherent := by
  refine .of_kind ?_ nofun nofun
  rw [Entry.heading, heading_function]
  rfl

/-- A block that is met is named by the spelling that it is signed with. -/
theorem coherent_of_mem_met {handles : List TypeHandle} {block : Block} (h : block ∈ here.met handles) :
    (Entry.block block).Coherent := by
  obtain ⟨handle, -, inner, -, call, -, rfl⟩ := here.mem_met.1 h
  rw [value_blockOfCall]
  exact Entry.coherent_block rfl rfl

end Surroundings

/-! ## Along a run -/

namespace Session

variable {session : Session}

/-- The record that waits for its name is coherent. -/
def CoherentPending (session : Session) : Prop := ∀ record ∈ session.pending, (Entry.record record).Coherent

/-- A declaration is described as coherent entries, the record that it names included. -/
theorem CoherentPending.eachDescribed (h : session.CoherentPending) (node : Node) :
    EachDescribed Entry.Coherent session node where
  interface := session.surroundings.coherent_interface node
  protocol := session.surroundings.coherent_protocol node
  category := session.surroundings.coherent_category? node
  record := session.surroundings.coherent_record node
  enum := .of_kind rfl nofun nofun
  constants := session.surroundings.coherent_anonymousConstants node
  function := session.surroundings.coherent_function node
  global := .of_kind rfl nofun nofun
  synonym := .of_kind rfl nofun nofun
  named unnamed hunnamed := ⟨(h unnamed hunnamed).rename node.name, .of_kind rfl nofun nofun⟩

theorem CoherentPending.handedOver (h : session.CoherentPending) (encounter : Encounter) :
    ∀ entry ∈ session.handedOver encounter, entry.Coherent :=
  (h.eachDescribed encounter.node).handedOver fun _ hblock => Surroundings.coherent_of_mem_met _ hblock

/-- One declaration: the record that waits behind it is the one it declares, or the one that waited before. -/
theorem CoherentPending.meet (h : session.CoherentPending) (encounter : Encounter) :
    (session.meet encounter).CoherentPending := by
  intro record hrecord
  rcases pending_meet hrecord with ⟨-, hunnamed⟩ | ⟨-, -, hwaiting⟩
  · rw [hunnamed.described]
    exact session.surroundings.coherent_record encounter.node record.kind
  · exact h record hwaiting

/-- A walk: whatever is come upon, what is handed over is coherent. -/
theorem CoherentPending.history (h : session.CoherentPending) (encounters : List Encounter) :
    ∀ entry ∈ session.history encounters, entry.Coherent := by
  induction encounters generalizing session with
  | nil => exact List.forall_mem_nil _
  | cons encounter rest ih => exact List.forall_mem_append.2 ⟨h.handedOver encounter, ih (h.meet encounter)⟩

end Session

theorem coherent_of_mem_surveyHistory {root : Node} {settings : Settings} {entry : Entry}
    (h : entry ∈ surveyHistory root settings) : entry.Coherent :=
  have hstart : (Session.start settings).CoherentPending := nofun
  hstart.history _ entry h

/-- The registry of a run agrees with itself. -/
theorem coherent_survey (root : Node) (settings : Settings) : (survey root settings).registry.Coherent := by
  rw [registry_survey]
  exact Registry.coherent_registerAll fun entry hentry =>
    coherent_of_mem_surveyHistory (List.mem_filter.1 hentry).1

end HeaderCatalog
