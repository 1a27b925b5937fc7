import HeaderCatalog.Proofs.Describe.Met
import HeaderCatalog.Proofs.Naming
import HeaderCatalog.Proofs.Resolution.Place
import HeaderCatalog.Proofs.Resolution.Relearned
import HeaderCatalog.Proofs.Session.Submissions

set_option autoImplicit false

/-!
# Declared records and their handles

There are three ways to the encoding of a record.  Its declaration is described field by field, with no record open.  A
handle with its fields is resolved at once, with the record open.  And a handle that only names it takes the members
that the declaration left in the registry.

They lead to the same encoding (`resolve_declared`).  What the registry has learned in between and the record being
open are two things that answer each other: inside its own fields the record is written bare, before because nothing is
known of it, and afterwards because it is open.
-/

namespace HeaderCatalog

/-! ## Describing the fields -/

namespace Surroundings

variable (here : Surroundings) (kind : RecordKind) (node : Node)

/-- The type of a field follows from what is reported with it, and from what is known. -/
def fieldType (lookup : Lookup) (reported : Option TypeHandle × Option String) : ResolvedType :=
  match reported.1 with
  | none => .ofEncoding (reported.2.getD "")
  | some handle => handle.resolveMember lookup reported.2

theorem type_field : (here.field node).value.type = fieldType here.lookup (node.type, node.encoding) := by
  unfold field fieldType
  cases node.type <;> rfl

theorem memberEncodings_record : (here.record kind node).value.memberEncodings =
    (node.childrenOf .field).map fun child => (fieldType here.lookup (child.type, child.encoding)).encoding := by
  simp [record, enter, RecordEntry.memberEncodings, type_field]

end Surroundings

/-! ## What a registered record tells -/

namespace Registry

variable (registry : Registry) (entry : RecordEntry)

/-- A new record is registered as it is. -/
theorem record?_register (hnew : registry.entry? (.record entry.kind) entry.heading.name = none) :
    (registry.register (.record entry)).record? entry.kind entry.heading.name = some entry := by
  have hfound : (registry.register (.record entry)).find? { kind := .record entry.kind, name := entry.heading.name } =
      some (.record entry) := by
    have haccepts : registry.accepts (Entry.record entry).key (.record entry) = true := by
      unfold Named.accepts
      rw [show registry.find? (Entry.record entry).key = none from hnew]
    change (registry.insert (Entry.record entry).key (.record entry)).find? _ = _
    rw [Named.find?_insert, if_pos ⟨rfl, haccepts⟩]
  rw [record?, entry?, hfound]

/-- What is known of everything but a new record stays the same. -/
theorem learns_register (hnew : registry.entry? (.record entry.kind) entry.heading.name = none) :
    registry.lookup.Learns ⟨entry.kind, entry.heading.name⟩ (registry.register (.record entry)).lookup where
  unknown := by
    change registry.members? entry.kind entry.heading.name = none
    rw [members?, record?, hnew]
  members_eq := by
    intro key hkey
    have hne : ({ kind := .record key.kind, name := key.name } : EntryKey) ≠ (Entry.record entry).key := by
      intro heq
      apply hkey
      cases key
      cases heq
      rfl
    exact members?_register_of_ne registry hne
  synonym_eq := by
    funext name
    refine synonymType?_register_of_ne registry fun heq => ?_
    cases heq

end Registry

/-! ## Declarations of records -/

namespace Node

/-- A declaration of a record with a name, whose fields are reported with types and nothing else. -/
structure DeclaresRecord (node : Node) (kind : RecordKind) (fields : List FieldHandle) : Prop where
  kind_eq : node.kind = .record kind
  named : Naming.isAnonymous node.name = false
  /-- The name has no keyword and no blank before it, and no blank behind it. -/
  ofRecord_eq : Naming.ofRecord node.name = node.name
  reported : ((node.childrenOf .field).map fun child => (child.type, child.encoding)) =
    fields.map fun field => (some field.type, none)
  ne_nil : fields ≠ []

/-- A declaration that is described is all that is come upon there. -/
theorem encountersIn_described {settings : Settings} {node : Node} (htransparent : node.kind.isTransparent = false)
    (hreached : settings.skips node = false) (hdescribed : node.kind.isDescribed = true) :
    encountersIn settings [node] = [⟨node, .describe⟩] := by
  cases node
  rw [encountersIn, encountersIn, List.append_nil, encounters]
  dsimp only at htransparent hdescribed ⊢
  rw [if_neg (by simp [htransparent]), if_neg (by simp [hreached]), if_pos hdescribed]

end Node

/-- Handles of a record inside some fields carry no fields themselves. -/
def BareInside (key : RecordKey) (fields : List FieldHandle) : Prop :=
  ∀ field ∈ fields, ∀ part ∈ field.type.inside, part.recordKey? = some key → part.recordFields = []

instance (key : RecordKey) (fields : List FieldHandle) : Decidable (BareInside key fields) :=
  inferInstanceAs (Decidable (∀ field ∈ fields, ∀ part ∈ field.type.inside,
    part.recordKey? = some key → part.recordFields = []))

namespace Session

variable (session : Session) {node : Node} {kind : RecordKind} {fields : List FieldHandle}

/-- The entry that a declaration of a record is described by. -/
def recordEntry (kind : RecordKind) (node : Node) : RecordEntry := (session.surroundings.record kind node).value

/-- A declaration of a record with a name hands over its entry and nothing else. -/
theorem handedOver_record (h : node.DeclaresRecord kind fields) :
    session.handedOver ⟨node, .describe⟩ = [.record (session.recordEntry kind node)] := by
  have hnamed : (session.surroundings.record kind node).value.isAnonymous = false := h.named
  unfold handedOver submissions
  rw [if_pos rfl, h.kind_eq]
  simp [Noted.handsOver, Surroundings.blocks_record, hnamed, recordEntry]

theorem registry_walk_record (h : node.DeclaresRecord kind fields) (hreached : session.settings.skips node = false) :
    (session.walk [node]).registry = session.registry.register (.record (session.recordEntry kind node)) := by
  have hencounters : Node.encountersIn session.settings [node] = [⟨node, .describe⟩] :=
    Node.encountersIn_described (by rw [h.kind_eq]; rfl) hreached (by rw [h.kind_eq]; rfl)
  have hkept : session.settings.keeps (.record (session.recordEntry kind node)) = true := by
    have hplace : session.settings.excludes (session.settings.classify node.location) = false :=
      (Bool.or_eq_false_iff.1 hreached).2
    exact congrArg (!·) hplace
  have hgains := (session.gains_meet ⟨node, .describe⟩).registry_eq
  rw [session.handedOver_record h, List.filter_cons_of_pos hkept, List.filter_nil] at hgains
  rw [walk, hencounters]
  exact hgains

/-- The members that are registered with a record are its fields, resolved with no record open. -/
theorem memberEncodings_recordEntry (h : node.DeclaresRecord kind fields) :
    (session.recordEntry kind node).memberEncodings =
      TypeHandle.memberEncodings session.registry.lookup [] fields := by
  have hreported := congrArg
    (List.map fun reported => (Surroundings.fieldType session.registry.lookup reported).encoding) h.reported
  rw [List.map_map, List.map_map] at hreported
  rw [recordEntry, Surroundings.memberEncodings_record, TypeHandle.memberEncodings_eq_map]
  exact hreported.trans (List.map_congr_left fun field _ =>
    congrArg ResolvedType.encoding (TypeHandle.resolveMember_eq session.registry.lookup none field.type))

theorem fields_recordEntry (h : node.DeclaresRecord kind fields) :
    (session.recordEntry kind node).fields.isEmpty = false := by
  have hmembers := session.memberEncodings_recordEntry h
  rw [TypeHandle.memberEncodings_eq_map] at hmembers
  refine eq_false_of_ne_true fun hempty => h.ne_nil ?_
  rw [RecordEntry.memberEncodings, List.isEmpty_iff.1 hempty, List.map_nil] at hmembers
  exact List.map_eq_nil_iff.1 hmembers.symm

/-- A record is registered with the encodings of its fields. -/
theorem encoding_recordEntry (h : node.DeclaresRecord kind fields) :
    (session.recordEntry kind node).encoding =
      .record kind node.name (some (TypeHandle.memberEncodings session.registry.lookup [] fields)) := by
  have hnamed : (session.recordEntry kind node).isAnonymous = false := h.named
  have hencoded : (session.recordEntry kind node).encoded = session.recordEntry kind node :=
    session.surroundings.encoded_record kind node
  rw [← hencoded, RecordEntry.encoded, hnamed, session.fields_recordEntry h, session.memberEncodings_recordEntry h]
  rfl

end Session

/-! ## The same record by its handles -/

namespace TypeHandle

/-- A handle of a record is resolved from its key and its fields. -/
theorem encoding_resolve_of_record {lookup : Lookup} {hint : Option String} {handle : TypeHandle} {kind : RecordKind}
    (hkind : handle.kind = .record kind) : (handle.resolve lookup hint).encoding =
      .record kind (recordKeyOf kind handle.spelling).name
        (if handle.fields.isEmpty then lookup.members? kind (recordKeyOf kind handle.spelling).name
          else some (memberEncodings lookup [recordKeyOf kind handle.spelling] handle.fields)) := by
  cases handle
  obtain rfl := hkind
  rw [resolve_eq]
  unfold resolveIn Lookup.recordEncoding
  dsimp only
  rw [if_pos (by rfl)]
  split_ifs <;> rfl

/-- The key of a record with a name, from its spelling. -/
theorem recordKeyOf_keyword (kind : RecordKind) {name : String} (hnamed : Naming.isAnonymous name = false)
    (h : Naming.ofRecord name = name) : recordKeyOf kind (kind.keyword ++ " " ++ name) = ⟨kind, name⟩ := by
  have hne : name ≠ "" := by
    rintro rfl
    revert hnamed
    decide +kernel
  rw [recordKeyOf, Naming.ofRecord_keyword kind hne h, hnamed]
  rfl

/-- Inside a record it makes no difference whether its members are known or the record is open. -/
theorem memberEncodings_learned {lookup other : Lookup} {key : RecordKey} (hlearns : lookup.Learns key other)
    {fields : List FieldHandle} (hbare : BareInside key fields) :
    memberEncodings other [key] fields = memberEncodings lookup [] fields := by
  have hrecords : ∀ pair ∈ Outline.allRecords (fieldOutlines lookup fields), pair.1 = key → pair.2 = [] := by
    rintro pair hpair rfl
    obtain ⟨field, hfield, part, hpart, hkey, hfields⟩ := exists_field_carries hpair
    rw [hfields, hbare field hfield part hpart hkey, fieldOutlines]
  have haround : ∀ k, k ∈ [key] ↔ k = key ∨ k ∈ ([] : List RecordKey) := by simp
  have hcut := Outline.allCut_relearn hlearns haround _ hrecords
  rw [← fieldOutlines_relearn hlearns.synonym_eq, ← fieldOutlines_relearn rfl] at hcut
  rw [memberEncodings_eq, memberEncodings_eq, Outline.allPlacedIn_some, Outline.allPlacedIn_some, hcut]

end TypeHandle

/-- **A declared record and its handles agree.**  Whatever was registered before, a new record is registered with an
encoding, and its handles resolve to that encoding, with fields or without. -/
theorem Session.resolve_declared (session : Session) {node : Node} {kind : RecordKind} {fields : List FieldHandle}
    (h : node.DeclaresRecord kind fields) (hnew : session.registry.entry? (.record kind) node.name = none)
    (hreached : session.settings.skips node = false) (hbare : BareInside ⟨kind, node.name⟩ fields) :
    ∃ entry, (session.walk [node]).registry.record? kind node.name = some entry ∧
      ∀ handle : TypeHandle, handle.kind = .record kind → handle.spelling = kind.keyword ++ " " ++ node.name →
        handle.fields = fields ∨ handle.fields = [] →
        (handle.resolve (session.walk [node]).registry.lookup none).encoding = entry.encoding := by
  let entry := session.recordEntry kind node
  have hregistry : (session.walk [node]).registry = session.registry.register (.record entry) :=
    session.registry_walk_record h hreached
  have hlearns : session.registry.lookup.Learns ⟨kind, node.name⟩ (session.registry.register (.record entry)).lookup :=
    session.registry.learns_register entry hnew
  have hfound : (session.registry.register (.record entry)).record? kind node.name = some entry :=
    session.registry.record?_register entry hnew
  rw [hregistry]
  refine ⟨entry, hfound, fun handle hkind hspelling hfields => ?_⟩
  have hkey : recordKeyOf kind handle.spelling = ⟨kind, node.name⟩ := by
    rw [hspelling, TypeHandle.recordKeyOf_keyword kind h.named h.ofRecord_eq]
  rw [session.encoding_recordEntry h, TypeHandle.encoding_resolve_of_record hkind, hkey]
  rcases hfields with hfields | hfields
  · -- the record is open while its fields are resolved, as it was unknown then
    have hne : fields.isEmpty = false := by simpa using h.ne_nil
    rw [hfields, hne, TypeHandle.memberEncodings_learned hlearns hbare]
    rfl
  · -- the members are taken from the entry
    have hmembers : (session.registry.register (.record entry)).members? kind node.name =
        some (TypeHandle.memberEncodings session.registry.lookup [] fields) := by
      rw [Registry.members?, hfound, ← session.memberEncodings_recordEntry h]
      exact if_neg (by simp [entry, session.fields_recordEntry h])
    rw [hfields]
    exact congrArg (Encoding.record kind node.name) hmembers

/-- The struct of a list, with a pointer to itself. -/
theorem Session.resolve_declared_item :
    let session := Session.start {}
    let next : TypeHandle :=
      { kind := .pointer, spelling := "struct Item *",
        pointee := some { kind := .record .struct, spelling := "struct Item" } }
    let fields : List FieldHandle := [⟨"value", { kind := .scalar .int }⟩, ⟨"next", next⟩]
    let node : Node :=
      { kind := .record .struct, name := "Item",
        children := fields.map fun field => { kind := .field, name := field.name, type := some field.type } }
    (node.DeclaresRecord .struct fields ∧ session.registry.entry? (.record .struct) node.name = none ∧
      session.settings.skips node = false ∧ BareInside ⟨.struct, node.name⟩ fields) ∧
    ∃ entry, (session.walk [node]).registry.record? .struct node.name = some entry ∧
      ∀ handle : TypeHandle, handle.kind = .record .struct →
        handle.spelling = RecordKind.struct.keyword ++ " " ++ node.name →
        handle.fields = fields ∨ handle.fields = [] →
        (handle.resolve (session.walk [node]).registry.lookup none).encoding = entry.encoding := by
  intro session next fields node
  have h : node.DeclaresRecord .struct fields :=
    ⟨rfl, by decide +kernel, by decide +kernel, rfl, List.cons_ne_nil _ _⟩
  have hreached : session.settings.skips node = false := by decide +kernel
  have hbare : BareInside ⟨.struct, node.name⟩ fields := by decide +kernel
  exact ⟨⟨h, rfl, hreached, hbare⟩, session.resolve_declared h rfl hreached hbare⟩

/-- A struct with a field of a typedef of its own name, spelled with a qualifier.  The typedef names an unnamed struct,
but its key is that of the struct around it, and where that is open the members are lost. -/
theorem Session.resolve_declared_qualified :
    let session := Session.start {}
    let unnamed : TypeHandle :=
      { kind := .record .struct, spelling := "struct (unnamed at a.h:1:9)",
        fields := [⟨"raw", { kind := .scalar .int }⟩] }
    let inner : TypeHandle := { kind := .sugar .synonym, spelling := "const Handle", canonical := some unnamed }
    let node : Node :=
      { kind := .record .struct, name := "Handle",
        children := [{ kind := .field, name := "inner", type := some inner }] }
    let lookup := (session.walk [node]).registry.lookup
    let bare : TypeHandle := { kind := .record .struct, spelling := "struct Handle" }
    let members := Encoding.record .struct "Handle" (some [['i']])
    node.DeclaresRecord .struct [⟨"inner", inner⟩] ∧
      (∀ part ∈ inner.inside, part.spelling ≠ "Handle" ∧ part.kind ≠ .record .struct) ∧
      recordKeyOf .struct unnamed.spelling ≠ ⟨.struct, "Handle"⟩ ∧
      ((session.walk [node]).registry.record? .struct "Handle").map (·.encoding) =
        some (.record .struct "Handle" (some [members])) ∧
      (bare.resolve lookup none).encoding = .record .struct "Handle" (some [members]) ∧
      (TypeHandle.resolve lookup none { bare with fields := [⟨"inner", inner⟩] }).encoding =
        .record .struct "Handle" (some [.record .struct "Handle" none]) := by
  intro session unnamed inner node lookup bare members
  refine ⟨⟨rfl, by decide +kernel, by decide +kernel, rfl, List.cons_ne_nil _ _⟩, ?_⟩
  decide +kernel

end HeaderCatalog
