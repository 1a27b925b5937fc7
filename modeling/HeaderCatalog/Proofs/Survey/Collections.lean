import HeaderCatalog.Proofs.Survey.Coherent
import HeaderCatalog.Proofs.Survey.DeclaredRecords
import HeaderCatalog.Proofs.Survey.Synonyms
import HeaderCatalog.Proofs.Survey.Waiting

set_option autoImplicit false

/-!
# The collections of a run

After a run the collections of the registry agree with each other, and every entry agrees with what it is stored under
(`coherent_survey`).  The records are traced further back: each one was declared with the fields it has, under the name
it has or under none, and then the name is that of a typedef behind it (`exists_declaredAs`).  Its encoding is that of
the name it has now.
-/

namespace HeaderCatalog

/-! ## Declared fields -/

namespace Surroundings

/-- The fields that a declaration has with what is known of named types. -/
def declaredFields (lookup : Lookup) (node : Node) : List Field :=
  (node.childrenOf .field).map fun child => ⟨child.name, fieldType lookup (child.type, child.encoding)⟩

theorem value_field (here : Surroundings) (node : Node) :
    (here.field node).value = ⟨node.name, fieldType here.lookup (node.type, node.encoding)⟩ := by
  unfold field fieldType
  cases node.type <;> rfl

theorem fields_record (here : Surroundings) (kind : RecordKind) (node : Node) :
    (here.record kind node).value.fields = declaredFields here.lookup node := by
  simp [record, enter, declaredFields, value_field]

end Surroundings

/-! ## Where records come from -/

namespace Session

theorem record_mem_handsOver {α : Type} {noted : Noted α} {entries : α → List Entry} {entry : RecordEntry} :
    .record entry ∈ noted.handsOver entries ↔ .record entry ∈ entries noted.value := by
  simp [Noted.handsOver]

/-- A record comes from its declaration, or from the typedef that names it. -/
theorem record_mem_submissions {session : Session} {node : Node} {entry : RecordEntry}
    (h : .record entry ∈ session.submissions node) :
    (node.kind = .record entry.kind ∧ entry = session.recordEntry entry.kind node) ∨ node.kind = .synonym := by
  cases hkind : node.kind with
  | synonym => exact Or.inr rfl
  | record kind =>
    simp only [submissions, hkind, record_mem_handsOver] at h
    split at h
    · cases h
    · obtain rfl := by simpa using h
      exact Or.inl ⟨rfl, rfl⟩
  | interface | protocol | function | global | enum =>
    simp only [submissions, hkind] at h
    split at h <;> simp [record_mem_handsOver] at h
  | category => simp [submissions, hkind, record_mem_handsOver] at h
  | _ => simp [submissions, hkind] at h

end Session

theorem Registry.find?_of_record? {registry : Registry} {kind : RecordKind} {name : String} {entry : RecordEntry}
    (h : registry.record? kind name = some entry) :
    registry.find? { kind := .record kind, name } = some (.record entry) := by
  unfold record? at h
  split at h
  case h_1 found hfound =>
    cases h
    exact hfound
  case h_2 => cases h

/-- A declaration of a record that a run describes between certain others: its fields were resolved with what was known
there, and its name is its own, or it has none and is named by a typedef behind it. -/
structure DeclaredAs (root : Node) (settings : Settings) (kind : RecordKind) (name : String) (fields : List Field)
    (earlier : List Encounter) (declaration : Node) (later : List Encounter) : Prop where
  split : Node.encountersIn settings root.children = earlier ++ ⟨declaration, .describe⟩ :: later
  kind_eq : declaration.kind = .record kind
  fields_eq : fields = Surroundings.declaredFields (lookupAfter settings earlier) declaration
  name_eq : declaration.name = name ∨ Naming.isAnonymous declaration.name = true ∧
    ∃ synonym, ⟨synonym, .describe⟩ ∈ later ∧ synonym.kind = .synonym ∧ synonym.name = name

/-- A record that a run hands over was declared. -/
theorem exists_declaredAs {root : Node} {settings : Settings} {entry : RecordEntry}
    (h : .record entry ∈ surveyHistory root settings) : ∃ earlier declaration later,
      DeclaredAs root settings entry.kind entry.heading.name entry.fields earlier declaration later := by
  obtain ⟨earlier, ⟨node, treatment⟩, later, hsplit, hhanded⟩ := Session.mem_history h
  have hsubmitted := hhanded
  unfold Session.handedOver at hsubmitted
  split at hsubmitted
  case isFalse => cases hsubmitted
  case isTrue htreatment =>
    obtain rfl : treatment = .describe := htreatment
    rcases Session.record_mem_submissions hsubmitted with ⟨hkind, hentry⟩ | hkind
    · refine ⟨earlier, node, later, hsplit, hkind, ?_, Or.inl ?_⟩
      · exact (congrArg RecordEntry.fields hentry).trans (Surroundings.fields_record _ _ node)
      · exact (congrArg (·.heading.name) hentry).symm
    · -- The typedef took the record that waited, and that one was declared before it.
      obtain ⟨-, -, unnamed, hfilter, rfl⟩ := (Session.record_mem_handedOver hkind).1 hhanded
      have hpending := (Option.filter_eq_some_iff.1 hfilter).1
      obtain ⟨before, declaration, between, rfl, hunnamed, -⟩ := Session.exists_unnamed_of_pending rfl hpending
      refine ⟨before, declaration, between ++ ⟨node, .describe⟩ :: later, by simpa using hsplit, hunnamed.kind_eq, ?_,
        Or.inr ⟨hunnamed.isAnonymous, node, by simp, hkind, rfl⟩⟩
      exact (congrArg RecordEntry.fields hunnamed.described).trans (Surroundings.fields_record _ _ declaration)

/-- **The collections of a run agree with each other.**  What is stored under a key declares that kind and that name, a
block the framework and the signature as well, and no framework is there without blocks; names are listed once, and each
finds what is listed under it.  A record has the encoding of the name it has now and of its fields, which are those it
was declared with. -/
theorem collections_survey (root : Node) (settings : Settings) :
    (survey root settings).registry.Coherent ∧
    ∀ kind name entry, (survey root settings).registry.record? kind name = some entry →
      entry.kind = kind ∧ entry.heading.name = name ∧ entry.encoding = kind.encodingOf name entry.fields ∧
      ∃ earlier declaration later, DeclaredAs root settings kind name entry.fields earlier declaration later := by
  have hcoherent := coherent_survey root settings
  refine ⟨hcoherent, fun kind name entry hrecord => ?_⟩
  have hfind := Registry.find?_of_record? hrecord
  have hstored := Named.find?_eq_some_iff.1 hfind
  have hencoding := (hcoherent.entries _ hstored).encoding entry rfl
  obtain ⟨-, hrecordKind, hname⟩ := hcoherent.stored _ hstored
  have hkind : entry.kind = kind := EntryKind.record.inj hrecordKind
  rw [registry_survey] at hfind
  obtain ⟨hmem, -⟩ := Registry.mem_of_find? (show EntryKind.record kind ≠ .extension from nofun) hfind
  have hdeclared := exists_declaredAs (List.mem_filter.1 hmem).1
  obtain rfl : entry.heading.name = name := hname
  obtain rfl := hkind
  exact ⟨rfl, rfl, hencoding, hdeclared⟩

/-- A struct without a name that a typedef names, and a variable with a block of the framework of the run. -/
theorem collections_survey_point :
    let settings : Settings := { frameworkName := "Drawing" }
    let note := "struct (unnamed at a.h:1:9)"
    let number : Node := { kind := .field, name := "x", type := some { kind := .scalar .double, spelling := "double" } }
    let record : Node := { kind := .record .struct, name := note, children := [number] }
    let named : Node :=
      { kind := .synonym, name := "Point", type := some { kind := .record .struct, spelling := note } }
    let handler : Node :=
      { kind := .global, name := "kHandler", location := some ⟨"/a.h", 3⟩
        type := some { kind := .blockPointer, spelling := "void (^)(void)" } }
    let root : Node := { kind := .unit, children := [record, named, handler] }
    let point : RecordEntry :=
      ⟨⟨"Point", .record .struct, .unresolved, none⟩, [⟨"x", ⟨"double", "double", ['d']⟩⟩], "{Point=d}".toList⟩
    (survey root settings).registry.record? .struct "Point" = some point ∧
      point.encoding = RecordKind.encodingOf .struct "Point" point.fields ∧
      (∃ earlier declaration later, DeclaredAs root settings .struct "Point" point.fields earlier declaration later) ∧
      "Drawing" ∈ (survey root settings).registry.blockFrameworks ∧
      (survey root settings).registry.blocksOf "Drawing" ≠ [] := by
  intro settings note number record named handler root point
  obtain ⟨hcoherent, hrecords⟩ := collections_survey root settings
  have hpoint : (survey root settings).registry.record? .struct "Point" = some point := by decide +kernel
  have hframework : "Drawing" ∈ (survey root settings).registry.blockFrameworks := by decide +kernel
  obtain ⟨-, -, hencoding, hdeclared⟩ := hrecords .struct "Point" point hpoint
  exact ⟨hpoint, hencoding, hdeclared, hframework, hcoherent.blocks_ne_nil _ hframework⟩

end HeaderCatalog
