import HeaderCatalog.Describe.Entry
import HeaderCatalog.Proofs.Describe.Calls
import HeaderCatalog.Proofs.Resolution.Complete

set_option autoImplicit false

/-!
# Entries whose types say something

Every type in an entry is one that resolution gives, one that is read off a reported encoding, or one that is written
down in the description itself.  So in surroundings where the known typedefs are complete, every description makes an
entry with complete types only, down to those of the blocks inside it.
-/

namespace HeaderCatalog

/-! ## Complete entries -/

/-- A block with a signature, whose own types are complete. -/
structure Block.IsComplete (block : Block) : Prop where
  ownTypes : ∀ type ∈ block.ownTypes, type.IsComplete
  encoding_ne : block.encoding ≠ []

/-- A member whose type is complete, and so are the blocks inside it. -/
structure Member.IsComplete (member : Member) : Prop where
  type : member.type.IsComplete
  blocks : ∀ block ∈ member.blocks, block.IsComplete

/-- A member without a block is complete if its type is. -/
@[simp] theorem Member.isComplete_none {type : ResolvedType} : Member.IsComplete ⟨type, none⟩ ↔ type.IsComplete :=
  ⟨(·.type), fun h => ⟨h, nofun⟩⟩

/-- An entry that stores complete types only, and no block or record without an encoding. -/
structure Entry.IsComplete (entry : Entry) : Prop where
  types : ∀ type ∈ entry.types, type.IsComplete
  blocks : ∀ block ∈ entry.blocks, block.encoding ≠ []
  record : ∀ record, entry = .record record → record.encoding ≠ []

namespace Entry

theorem isComplete_of_parts {entry : Entry} (hmembers : ∀ member ∈ entry.members, member.type.IsComplete)
    (hblocks : ∀ block ∈ entry.blocks, block.IsComplete)
    (hrecord : ∀ record, entry = .record record → record.encoding ≠ []) : entry.IsComplete where
  types := by
    intro type htype
    rcases List.mem_append.1 htype with hmember | hinner
    · obtain ⟨member, hmem, rfl⟩ := List.mem_map.1 hmember
      exact hmembers member hmem
    · obtain ⟨block, hblock, hown⟩ := List.mem_flatMap.1 hinner
      exact (hblocks block hblock).ownTypes type hown
  blocks block hblock := (hblocks block hblock).encoding_ne
  record := hrecord

theorem isComplete_block {block : Block} (h : ∀ inner ∈ block.within, inner.IsComplete) :
    (Entry.block block).IsComplete :=
  isComplete_of_parts nofun h nofun

/-- Apart from a block, an entry is complete if its members are and a record has an encoding. -/
theorem isComplete_iff {entry : Entry} (hkind : entry.kind ≠ .block) :
    entry.IsComplete ↔ (∀ member ∈ entry.members, member.IsComplete) ∧
      ∀ record, entry = .record record → record.encoding ≠ [] := by
  have hblocks : ∀ member ∈ entry.members, ∀ block ∈ member.blocks, block ∈ entry.blocks := by
    intro member hmember block hblock
    rw [blocks_eq hkind]
    exact List.mem_flatMap.2 ⟨member, hmember, hblock⟩
  constructor
  · refine fun h => ⟨fun member hmember => ?_, h.record⟩
    refine ⟨h.types _ (List.mem_append_left _ (List.mem_map_of_mem hmember)), fun block hblock => ?_⟩
    have hmem := hblocks member hmember block hblock
    exact ⟨fun type htype => h.types type (List.mem_append_right _ (List.mem_flatMap.2 ⟨block, hmem, htype⟩)),
      h.blocks block hmem⟩
  · rintro ⟨h, hrecord⟩
    refine isComplete_of_parts (fun member hmember => (h member hmember).type) (fun block hblock => ?_) hrecord
    rw [blocks_eq hkind] at hblock
    obtain ⟨member, hmember, hinner⟩ := List.mem_flatMap.1 hblock
    exact (h member hmember).blocks block hinner

theorem isComplete_class {entry : ClassEntry} :
    (Entry.class_ entry).IsComplete ↔ ∀ member ∈ entry.members, member.IsComplete := by
  have hkind : (Entry.class_ entry).kind ≠ .block := entry.kind.entryKind_ne_block
  rw [isComplete_iff hkind]
  simp [members]

theorem isComplete_record {entry : RecordEntry} :
    (Entry.record entry).IsComplete ↔ (∀ field ∈ entry.fields, field.type.IsComplete) ∧ entry.encoding ≠ [] := by
  rw [isComplete_iff (by simp [kind])]
  simp [members]

theorem isComplete_enum {entry : EnumEntry} : (Entry.enum entry).IsComplete ↔ entry.type.IsComplete := by
  rw [isComplete_iff (by simp [kind])]
  simp [members]

theorem isComplete_global {entry : GlobalEntry} : (Entry.global entry).IsComplete ↔ entry.type.IsComplete := by
  rw [isComplete_iff (by simp [kind])]
  simp [members]

theorem isComplete_synonym {entry : SynonymEntry} : (Entry.synonym entry).IsComplete ↔ entry.type.IsComplete := by
  rw [isComplete_iff (by simp [kind])]
  simp [members]

theorem isComplete_function {entry : FunctionEntry} :
    (Entry.function entry).IsComplete ↔ ∀ member ∈ entry.members, member.IsComplete := by
  rw [isComplete_iff (by simp [kind])]
  simp [members]

end Entry

theorem RecordEntry.encoding_encoded_ne (entry : RecordEntry) : entry.encoded.encoding ≠ [] :=
  Encoding.record_ne_nil _ _ _

/-- A record keeps its types under another name, and it gets another encoding. -/
theorem RecordEntry.isComplete_rename {entry : RecordEntry} (h : (Entry.record entry).IsComplete) (name : String) :
    (Entry.record (entry.rename name)).IsComplete :=
  Entry.isComplete_record.2 ⟨(Entry.isComplete_record.1 h).1, encoding_encoded_ne _⟩

/-- What holds of a value and is kept by every step of a loop holds of the value that the loop ends with. -/
theorem Noted.foldlM_induction {α β : Type} {P : β → Prop} {f : β → α → Noted β}
    (hstep : ∀ value x, P value → P (f value x).value) {value : β} (h : P value) (xs : List α) :
    P (xs.foldlM f value).value := by
  induction xs generalizing value with
  | nil => exact h
  | cons x xs ih =>
    rw [List.foldlM_cons, Noted.value_bind]
    exact ih (hstep value x h)

/-! ## Descriptions of complete entries -/

namespace Surroundings

variable (here : Surroundings)

theorem isComplete_blockReturn (h : here.lookup.IsComplete) (result : Option TypeHandle) :
    (here.blockReturn result).value.IsComplete := by
  cases result with
  | none => exact ResolvedType.isComplete_void
  | some handle => exact handle.isComplete_resolve h none

/-- The signature of a block is not empty: its mark is there whatever the block returns and takes. -/
theorem isComplete_blockOfCall (h : here.lookup.IsComplete) {call : Callable} (hkind : call.kind = .block) :
    (here.blockOfCall call).value.IsComplete := by
  rw [value_blockOfCall]
  constructor
  · refine List.forall_mem_cons.2 ⟨here.isComplete_blockReturn h call.result, fun type htype => ?_⟩
    simp only [List.map_map, List.mem_map] at htype
    obtain ⟨argument, -, rfl⟩ := htype
    exact argument.isComplete_resolve h none
  · have hmark : ['@', '?'] ≠ ([] : Encoding) := List.cons_ne_nil _ _
    change call.signature here.lookup ≠ []
    rw [Callable.signature_eq, if_pos hkind]
    exact List.append_ne_nil_of_left_ne_nil (List.append_ne_nil_of_right_ne_nil _ hmark) _

theorem isComplete_of_mem_collectBlock? (h : here.lookup.IsComplete) {handle : TypeHandle} {block : Block}
    (hblock : block ∈ (here.collectBlock? handle).blocks) : block.IsComplete := by
  obtain ⟨inner, -, call, hcall, rfl⟩ := here.mem_blocks_collectBlock?.1 hblock
  exact here.isComplete_blockOfCall h (TypeHandle.kind_of_blockCall? hcall).1

/-- The type of a handle and the block that it is. -/
theorem isComplete_of_handle (h : here.lookup.IsComplete) (hint : Option String) (handle : TypeHandle) :
    Member.IsComplete ⟨(here.type hint handle).value, (here.block? handle).value⟩ where
  type := handle.isComplete_resolve h hint
  blocks block hblock := by
    rw [Member.blocks, ← blocks_collectBlock?] at hblock
    exact here.isComplete_of_mem_collectBlock? h hblock

/-- The blocks that are noted on the way are complete as well, and so are those inside them. -/
theorem isComplete_of_mem_met (h : here.lookup.IsComplete) {handles : List TypeHandle} {block : Block}
    (hblock : block ∈ here.met handles) : (Entry.block block).IsComplete := by
  obtain ⟨handle, -, inner, -, call, hcall, rfl⟩ := here.mem_met.1 hblock
  have hwithin : Block.within (here.blockOfCall call).value = (here.collectBlock? inner).blocks := by
    rw [blocks_collectBlock?, block?_eq, hcall]
    rfl
  refine Entry.isComplete_block fun part hpart => ?_
  rw [hwithin] at hpart
  exact here.isComplete_of_mem_collectBlock? h hpart

/-! ### Members, arguments and returned values -/

theorem isComplete_declaredType (h : here.lookup.IsComplete) (hint : Option String) (handle : Option TypeHandle) :
    Member.IsComplete ⟨(here.declaredType hint handle).value.1, (here.declaredType hint handle).value.2⟩ := by
  cases handle with
  | none => exact Member.isComplete_none.2 (ResolvedType.isComplete_ofEncoding _)
  | some handle => exact here.isComplete_of_handle h hint handle

theorem isComplete_returned (h : here.lookup.IsComplete) (hint : Option String) (handle : TypeHandle) :
    (here.returned hint handle).value.member.IsComplete :=
  here.isComplete_of_handle h hint handle

theorem isComplete_arguments (h : here.lookup.IsComplete) (hints : List String) (node : Node) :
    ∀ member ∈ (here.arguments hints node).value.map (·.member), member.IsComplete := by
  unfold arguments
  rw [Noted.value_mapM, List.map_map, List.forall_mem_map]
  exact fun pair _ => here.isComplete_declaredType h hints[pair.2]? pair.1.type

theorem isComplete_method (h : here.lookup.IsComplete) (owner : String) (node : Node) :
    ∀ member ∈ (here.method owner node).value.members, member.IsComplete := by
  have harguments (hints : List String) := here.isComplete_arguments h hints node
  unfold method
  dsimp only
  split
  · exact List.forall_mem_cons.2 ⟨here.isComplete_returned h _ _, harguments _⟩
  · exact List.forall_mem_cons.2 ⟨Member.isComplete_none.2 (ResolvedType.isComplete_ofEncoding _), harguments _⟩
  · exact List.forall_mem_cons.2 ⟨Member.isComplete_none.2 ResolvedType.isComplete_void, harguments _⟩

theorem isComplete_property (h : here.lookup.IsComplete) (node : Node) :
    (here.property node).value.member.IsComplete :=
  here.isComplete_declaredType h node.encoding node.type

theorem isComplete_ivar (h : here.lookup.IsComplete) (node : Node) : (here.ivar node).value.member.IsComplete :=
  here.isComplete_declaredType h node.encoding node.type

/-! ### Declarations with methods -/

/-- One child: what it adds to the members is complete. -/
theorem isComplete_withChild (h : here.lookup.IsComplete) {entry : ClassEntry}
    (hentry : ∀ member ∈ entry.members, member.IsComplete) (child : Node) :
    ∀ member ∈ (here.withChild entry child).value.members, member.IsComplete := by
  obtain ⟨hmethods, hproperties, hivars⟩ := ClassEntry.forall_mem_members.1 hentry
  unfold withChild
  split
  · exact hentry
  · exact hentry
  split
  case isFalse => exact hentry
  case isTrue =>
    split
    case h_1 | h_2 =>
      refine ClassEntry.forall_mem_members.2 ⟨List.forall_mem_append.2 ⟨hmethods, ?_⟩, hproperties, hivars⟩
      exact List.forall_mem_singleton.2 (here.isComplete_method h _ child)
    case h_3 =>
      refine ClassEntry.forall_mem_members.2 ⟨hmethods, List.forall_mem_append.2 ⟨hproperties, ?_⟩, hivars⟩
      exact List.forall_mem_singleton.2 (here.isComplete_property h child)
    case h_4 =>
      refine ClassEntry.forall_mem_members.2 ⟨hmethods, hproperties, List.forall_mem_append.2 ⟨hivars, ?_⟩⟩
      exact List.forall_mem_singleton.2 (here.isComplete_ivar h child)
    case h_5 => exact hentry

theorem isComplete_withChildren (h : here.lookup.IsComplete) {entry : ClassEntry} (hempty : entry.members = [])
    (node : Node) : (Entry.class_ (here.withChildren entry node).value).IsComplete := by
  have hstart : ∀ member ∈ entry.members, member.IsComplete := by
    rw [hempty]
    exact List.forall_mem_nil _
  refine Entry.isComplete_class.2 (Noted.foldlM_induction
    (P := fun entry : ClassEntry => ∀ member ∈ entry.members, member.IsComplete) ?_ hstart node.children)
  exact fun value child hvalue => here.isComplete_withChild h hvalue child

theorem isComplete_interface (h : here.lookup.IsComplete) (node : Node) :
    (Entry.class_ (here.interface node).value).IsComplete :=
  (here.enter node).value.isComplete_withChildren h rfl node

theorem isComplete_protocol (h : here.lookup.IsComplete) (node : Node) :
    (Entry.class_ (here.protocol node).value).IsComplete :=
  (here.enter node).value.isComplete_withChildren h rfl node

theorem isComplete_category? (h : here.lookup.IsComplete) (node : Node) :
    ∀ entry ∈ (here.category? node).value, (Entry.class_ entry).IsComplete := by
  unfold category?
  cases extendedClass? node with
  | none =>
    intro entry hentry
    cases hentry
  | some extended =>
    rintro entry ⟨⟩
    exact (here.enter node).value.isComplete_withChildren h rfl node

/-! ### Other declarations -/

theorem isComplete_field (h : here.lookup.IsComplete) (node : Node) : (here.field node).value.type.IsComplete := by
  unfold field
  cases node.type with
  | none => exact ResolvedType.isComplete_ofEncoding _
  | some handle => exact handle.isComplete_resolveMember h node.encoding

theorem isComplete_record (h : here.lookup.IsComplete) (kind : RecordKind) (node : Node) :
    (Entry.record (here.record kind node).value).IsComplete := by
  refine Entry.isComplete_record.2 ⟨?_, RecordEntry.encoding_encoded_ne _⟩
  change ∀ field ∈ ((node.childrenOf .field).mapM (here.enter node).value.field).value, field.type.IsComplete
  rw [Noted.value_mapM, List.forall_mem_map]
  exact fun child _ => (here.enter node).value.isComplete_field h child

theorem isComplete_integerType (h : here.lookup.IsComplete) (node : Node) :
    (here.integerType node).value.IsComplete := by
  unfold integerType
  cases node.type with
  | none => exact .of_cons (by decide)
  | some handle => exact handle.isComplete_resolve h node.encoding

theorem isComplete_enum (h : here.lookup.IsComplete) (node : Node) :
    (Entry.enum (here.enum node).value).IsComplete :=
  Entry.isComplete_enum.2 ((here.enter node).value.isComplete_integerType h node)

theorem isComplete_anonymousConstants (h : here.lookup.IsComplete) (node : Node) :
    ∀ entry ∈ (here.anonymousConstants node).value, (Entry.global entry).IsComplete := by
  unfold anonymousConstants
  rw [Noted.value_bind, Noted.value_mapM, List.forall_mem_map]
  exact fun constant _ => Entry.isComplete_global.2 (here.isComplete_integerType h node)

theorem isComplete_global (h : here.lookup.IsComplete) (node : Node) :
    (Entry.global (here.global node).value).IsComplete :=
  Entry.isComplete_global.2 ((here.enter node).value.isComplete_declaredType h node.encoding node.type).type

theorem isComplete_function (h : here.lookup.IsComplete) (node : Node) :
    (Entry.function (here.function node).value).IsComplete := by
  have harguments := (here.enter node).value.isComplete_arguments h [] node
  rw [Entry.isComplete_function]
  unfold function
  rw [Noted.value_bind]
  dsimp only
  split
  · exact List.forall_mem_cons.2 ⟨(here.enter node).value.isComplete_returned h _ _, harguments⟩
  · exact List.forall_mem_cons.2 ⟨Member.isComplete_none.2 ResolvedType.isComplete_void, harguments⟩

theorem isComplete_synonym (h : here.lookup.IsComplete) (node : Node) :
    (Entry.synonym (here.synonym node).value).IsComplete :=
  Entry.isComplete_synonym.2 ((here.enter node).value.isComplete_declaredType h node.encoding node.type).type

theorem isComplete_synonymOfRecord {entry : RecordEntry} (h : (Entry.record entry).IsComplete) (node : Node) :
    (Entry.synonym (here.synonymOfRecord entry node).value).IsComplete :=
  Entry.isComplete_synonym.2 ⟨entry.kind.keyword_ne, h.record entry rfl⟩

end Surroundings

end HeaderCatalog
