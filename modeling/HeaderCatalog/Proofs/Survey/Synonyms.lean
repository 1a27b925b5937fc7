import HeaderCatalog.Proofs.Registry.History
import HeaderCatalog.Proofs.Resolution.Place
import HeaderCatalog.Proofs.Session.Submissions

set_option autoImplicit false

/-!
# Typedefs and what they stand for

A typedef is resolved when it is declared, as a type of its own, and what comes of it is kept.  A handle that names it
without saying what it stands for is given that type, wherever the handle stands and whatever has become known since.

So there are two readings of a typedef: the type that was kept, and the type behind it, resolved where it stands.
`registered_synonym_alike` says when they agree in all that is built around them.
-/

namespace HeaderCatalog

/-! ## Where a registered typedef comes from -/

/-- A type that is offered for a typedef is that of its entry, and it could be reduced. -/
theorem Registry.entry_of_synonymType? {registry : Registry} {name : String} {type : ResolvedType}
    (h : registry.synonymType? name = some type) : type.isUnknown = false ∧
      ∃ entry, registry.find? { kind := .synonym, name } = some (.synonym entry) ∧ entry.type = type := by
  unfold synonymType? at h
  split at h
  case h_1 entry hentry =>
    unfold synonym? at hentry
    split at hentry
    case h_1 found hfound =>
      cases hentry
      split at h
      · cases h
      · cases h
        exact ⟨eq_false_of_ne_true ‹_›, entry, hfound, rfl⟩
    case h_2 => cases hentry
  case h_2 => cases h

/-- What stands in a registry was registered under its key. -/
theorem Registry.mem_of_find? {history : List Entry} {key : EntryKey} {entry : Entry} (hkind : key.kind ≠ .extension)
    (h : (empty.registerAll history).find? key = some entry) : entry ∈ history ∧ entry.key = key := by
  rw [find?_registerAll history hkind] at h
  simpa using mem_of_settled h

namespace Session

/-- What a session hands over on its way, it hands over for one of the declarations it comes upon. -/
theorem mem_history {entry : Entry} {session : Session} {encounters : List Encounter}
    (h : entry ∈ session.history encounters) : ∃ earlier encounter later,
      encounters = earlier ++ encounter :: later ∧ entry ∈ (earlier.foldl meet session).handedOver encounter := by
  induction encounters generalizing session with
  | nil => cases h
  | cons encounter rest ih =>
    rcases List.mem_append.1 h with h | h
    · exact ⟨[], encounter, rest, rfl, h⟩
    · obtain ⟨earlier, found, later, rfl, hfound⟩ := ih h
      exact ⟨encounter :: earlier, found, later, rfl, hfound⟩

theorem synonym_mem_handsOver {α : Type} {noted : Noted α} {entries : α → List Entry} {entry : SynonymEntry} :
    .synonym entry ∈ noted.handsOver entries ↔ .synonym entry ∈ entries noted.value := by
  simp [Noted.handsOver]

/-- The type of a typedef that names no record is that of the handle behind it. -/
theorem type_synonym (here : Surroundings) {node : Node} {target : TypeHandle} (h : node.type = some target) :
    (here.synonym node).value.type = target.resolve here.lookup node.encoding := by
  unfold Surroundings.synonym
  rw [h]
  rfl

/-- A typedef comes from the declaration of a typedef.  Its name is the one declared, and its type is what the type
behind it was resolved to, if that is no unnamed record. -/
theorem synonym_mem_submissions {session : Session} {node : Node} {entry : SynonymEntry}
    (h : .synonym entry ∈ session.submissions node) :
    node.kind = .synonym ∧ entry.heading.name = node.name ∧
      ∀ target, node.type = some target → target.unnamedRecord? = none →
        entry.type = target.resolve session.registry.lookup node.encoding := by
  cases hkind : node.kind with
  | synonym =>
    refine ⟨rfl, ?_⟩
    simp only [submissions, hkind] at h
    split at h
    · cases h
    split at h
    case h_1 unnamed hpending =>
      obtain rfl := by simpa [synonym_mem_handsOver] using h
      refine ⟨rfl, fun target htarget hnamed => ?_⟩
      have hnames := (Option.filter_eq_some_iff.1 hpending).2
      simp [namesRecord, htarget, hnamed] at hnames
    case h_2 =>
      obtain rfl := by simpa [synonym_mem_handsOver] using h
      exact ⟨rfl, fun target htarget _ => type_synonym session.surroundings htarget⟩
  | interface | protocol | function | global | enum =>
    simp only [submissions, hkind] at h
    split at h <;> simp [synonym_mem_handsOver] at h
  | category | record _ => simp [submissions, hkind, synonym_mem_handsOver] at h
  | _ => simp [submissions, hkind] at h

end Session

/-- The lookup of a run that has come upon some declarations. -/
def lookupAfter (settings : Settings) (encounters : List Encounter) : Lookup :=
  (encounters.foldl Session.meet (Session.start settings)).registry.lookup

/-- A typedef that a run knows was declared, and its type is what the type behind it came to at that time. -/
theorem exists_declaration {root : Node} {settings : Settings} {name : String} {type : ResolvedType}
    (h : (survey root settings).registry.lookup.synonym? name = some type) :
    ∃ earlier declaration later,
      Node.encountersIn settings root.children = earlier ++ ⟨declaration, .describe⟩ :: later ∧
        declaration.kind = .synonym ∧ declaration.name = name ∧
        ∀ target, declaration.type = some target → target.unnamedRecord? = none →
          type = target.resolve (lookupAfter settings earlier) declaration.encoding := by
  obtain ⟨-, entry, hentry, rfl⟩ := Registry.entry_of_synonymType? h
  rw [registry_survey] at hentry
  have hkind : EntryKind.synonym ≠ .extension := by decide
  obtain ⟨hmem, hkey⟩ := Registry.mem_of_find? hkind hentry
  obtain ⟨earlier, ⟨declaration, treatment⟩, later, hsplit, hhanded⟩ := Session.mem_history (List.mem_filter.1 hmem).1
  unfold Session.handedOver at hhanded
  split at hhanded
  case isTrue htreatment =>
    obtain ⟨hkind, hname, htype⟩ := Session.synonym_mem_submissions hhanded
    obtain rfl : treatment = .describe := htreatment
    refine ⟨earlier, declaration, later, hsplit, hkind, ?_, htype⟩
    rw [← hname]
    exact congrArg EntryKey.name hkey
  case isFalse => cases hhanded

/-! ## Two readings of a typedef -/

namespace TypeHandle

/-- A handle that names a typedef, with what it stands for or without. -/
def asSynonym (shell : TypeHandle) (target : Option TypeHandle) : TypeHandle :=
  { shell with kind := .sugar .synonym, canonical := target }

/-- A typedef that is known by its name alone is given the type that was kept. -/
theorem resolveIn_synonym {lookup : Lookup} {shell : TypeHandle} {type : ResolvedType}
    (h : lookup.synonym? (Naming.ofRecord shell.spelling) = some type) (visiting : List RecordKey) (scope : Scope)
    (hint : Option String) :
    (shell.asSynonym none).resolveIn lookup visiting scope hint = type.withValue shell.spelling := by
  cases shell
  unfold asSynonym resolveIn
  dsimp only at h ⊢
  rw [h]

/-- A function is no type that could be reduced. -/
theorem outline_of_function (lookup : Lookup) (hint : Option String) (handle : TypeHandle)
    (hfunction : handle.desugared.kind.isFunction) : handle.outline lookup hint = .plain Encoding.unknown := by
  have hnamed : handle.unnamedRecord? = none := by
    unfold unnamedRecord?
    cases hkind : handle.desugared.kind <;> simp_all [TypeKind.isFunction]
  rw [outline_desugared lookup hint handle hnamed]
  generalize handle.desugared = function at hfunction
  obtain ⟨kind⟩ := function
  cases kind with
  | function _ => rfl
  | _ => cases hfunction

end TypeHandle

/-- The two readings of a typedef agree in all that is built around them if they agree outside, and the place of the
hole is neutral for the type behind. -/
theorem alike_plug_synonym {lookup : Lookup} {shell target : TypeHandle} {type : ResolvedType} (frames : List Frame)
    (hknown : lookup.synonym? (Naming.ofRecord shell.spelling) = some type) (hreduced : type.isUnknown = false)
    (hnow : ((shell.asSynonym (some target)).resolve lookup none).Alike type)
    (hchar : frames.getLast?.any (·.isPointer) → target.desugared.kind.isChar = false)
    (hneutral : ∀ hole ∈ Frame.hole? .outer frames,
      hole.NeutralFor ((shell.asSynonym (some target)).outline lookup none)) :
    ((Frame.plug frames (shell.asSynonym none)).resolve lookup none).Alike
      ((Frame.plug frames (shell.asSynonym (some target))).resolve lookup none) := by
  have hfunction : target.desugared.kind.isFunction = false := by
    refine eq_false_of_ne_true fun hfunction => ?_
    have hunknown : type.encoding = Encoding.unknown := by
      have houtline := (shell.asSynonym (some target)).outline_of_function lookup none hfunction
      rw [← hnow.2, TypeHandle.encoding_resolve, houtline]
      rfl
    simp [ResolvedType.isUnknown, hunknown] at hreduced
  rw [TypeHandle.resolve_eq_resolveAt, TypeHandle.resolve_eq_resolveAt]
  refine alike_plug frames (fun _ => rfl) (fun hpointer => ?_) fun hole hhole => ?_
  · exact Bool.or_eq_false_iff.2 ⟨hchar hpointer, hfunction⟩
  · have hkept : ((shell.asSynonym none).resolveAt lookup hole).Alike type := by
      rw [TypeHandle.resolveAt, TypeHandle.resolveIn_synonym hknown]
      exact ⟨rfl, rfl⟩
    exact hkept.trans (hnow.symm.trans (TypeHandle.alike_resolveAt (hneutral hole hhole)).symm)

/-- **A typedef reads alike with and without what it stands for** in all that is built around it, under three
conditions: written out, it still comes to what was kept; its hole is neutral for it; and it is no character right
behind a pointer. -/
theorem registered_synonym_alike {root : Node} {settings : Settings} {name : String} {type : ResolvedType}
    (h : (survey root settings).registry.lookup.synonym? name = some type) :
    let lookup := (survey root settings).registry.lookup
    ∃ earlier declaration later,
      Node.encountersIn settings root.children = earlier ++ ⟨declaration, .describe⟩ :: later ∧
      declaration.kind = .synonym ∧ declaration.name = name ∧
      ∀ target, declaration.type = some target →
        (target.unnamedRecord? = none →
          type = target.resolve (lookupAfter settings earlier) declaration.encoding) ∧
        ∀ (shell : TypeHandle) (frames : List Frame), Naming.ofRecord shell.spelling = name →
          ((shell.asSynonym (some target)).resolve lookup none).Alike type →
          (frames.getLast?.any (·.isPointer) → target.desugared.kind.isChar = false) →
          (∀ hole ∈ Frame.hole? .outer frames,
            hole.NeutralFor ((shell.asSynonym (some target)).outline lookup none)) →
          ((Frame.plug frames (shell.asSynonym none)).resolve lookup none).Alike
            ((Frame.plug frames (shell.asSynonym (some target))).resolve lookup none) := by
  intro lookup
  obtain ⟨earlier, declaration, later, hsplit, hkind, hname, htype⟩ := exists_declaration h
  refine ⟨earlier, declaration, later, hsplit, hkind, hname, fun target htarget => ⟨htype target htarget, ?_⟩⟩
  rintro shell frames rfl hnow hchar hneutral
  exact alike_plug_synonym frames h (Registry.entry_of_synonymType? h).1 hnow hchar hneutral

/-- A typedef of a struct, in an array that is a field of another struct. -/
theorem registered_synonym_alike_points :
    let number : TypeHandle := { kind := .scalar .double }
    let point : TypeHandle :=
      { kind := .record .struct, spelling := "struct Point", fields := [⟨"x", number⟩, ⟨"y", number⟩] }
    let root : Node :=
      { kind := .unit, children := [{ kind := .synonym, name := "Point", type := some point }] }
    let lookup := (survey root {}).registry.lookup
    let shell : TypeHandle := { kind := .sugar .synonym, spelling := "Point" }
    let frames : List Frame :=
      [.field .struct { kind := .record .struct, spelling := "struct Line" } [] "ends" [⟨"width", number⟩],
        .array { kind := .constantArray, size := some 2 }]
    ((Frame.plug frames (shell.asSynonym none)).resolve lookup none).Alike
      ((Frame.plug frames (shell.asSynonym (some point))).resolve lookup none) := by
  intro number point root lookup shell frames
  have hregistered : lookup.synonym? "Point" = some (point.resolve .empty none) := by decide +kernel
  obtain ⟨earlier, declaration, later, hsplit, -, -, h⟩ := registered_synonym_alike hregistered
  have honly : Node.encountersIn {} root.children =
      [⟨{ kind := .synonym, name := "Point", type := some point }, .describe⟩] := by rfl
  obtain ⟨rfl, rfl, rfl⟩ : earlier = [] ∧ declaration = { kind := .synonym, name := "Point", type := some point } ∧
      later = [] := by
    rw [honly] at hsplit
    cases earlier <;> simp_all
  exact (h point rfl).2 shell frames (by decide +kernel) (by decide +kernel) (by decide +kernel) (by decide +kernel)

/-- Behind two pointers no record is opened, but the type that was kept for a typedef is. -/
theorem registered_synonym_not_alike :
    let number : TypeHandle := { kind := .scalar .double }
    let point : TypeHandle :=
      { kind := .record .struct, spelling := "struct Point", fields := [⟨"x", number⟩, ⟨"y", number⟩] }
    let root : Node :=
      { kind := .unit, children := [{ kind := .synonym, name := "Point", type := some point }] }
    let lookup := (survey root {}).registry.lookup
    let shell : TypeHandle := { kind := .sugar .synonym, spelling := "Point" }
    let frames : List Frame := [.pointer { kind := .pointer }, .pointer { kind := .pointer }]
    ((Frame.plug frames (shell.asSynonym none)).resolve lookup none).encoding =
        '^' :: '^' :: Encoding.record .struct "Point" (some [['d'], ['d']]) ∧
      ((Frame.plug frames (shell.asSynonym (some point))).resolve lookup none).encoding =
        '^' :: '^' :: Encoding.record .struct "Point" none := by
  decide +kernel

end HeaderCatalog
