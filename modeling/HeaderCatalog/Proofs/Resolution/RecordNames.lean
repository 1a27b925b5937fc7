import HeaderCatalog.Proofs.Resolution.Parts

set_option autoImplicit false

/-!
# The names that records are written with

A front end that reports a record without a name spells it all the same, with a note in the place of the name.  Such a
note is no name.  Resolution drops it where a record is reported directly, and writes a question mark; sugar over such a
record is taken at its word.  So a note is written only where sugar repeats it (`key_written`), and a header whose
typedefs have names is written with names alone (`names_written`).
-/

namespace HeaderCatalog

/-- The name of a record reported directly is no note. -/
theorem isAnonymous_recordKeyOf (kind : RecordKind) (spelling : String) :
    Naming.isAnonymous (recordKeyOf kind spelling).name = false := by
  unfold recordKeyOf
  dsimp only
  split
  · decide +kernel
  · exact eq_false_of_ne_true ‹_›

namespace Outline

mutual

/-- A place makes records bare and leaves out what is in them, but it gives none another name. -/
theorem keys_placedIn_sublist (watch : Watch) (scope : Scope) : ∀ outline : Outline,
    List.Sublist (outline.placedIn watch scope).keys outline.keys
  | plain _ => List.Sublist.refl _
  | pointer target => keys_placedIn_sublist watch scope.behindPointer target
  | array _ element => keys_placedIn_sublist watch scope element
  | record key fields => by
    unfold placedIn
    split
    · exact (keys_allPlacedIn_sublist (watch.enter key) .field fields).cons_cons key
    · exact (List.nil_sublist _).cons_cons key
  | known key _ => List.Sublist.refl [key]
  | call _ returned taken => by
    simp only [keys, placedIn, records, List.map_append]
    exact (keys_placedIn_sublist watch .outer returned).append (keys_allPlacedIn_sublist watch .outer taken)

theorem keys_allPlacedIn_sublist (watch : Watch) (scope : Scope) : ∀ outlines : List Outline,
    List.Sublist ((allRecords (allPlacedIn watch scope outlines)).map (·.1)) ((allRecords outlines).map (·.1))
  | [] => List.Sublist.refl _
  | outline :: rest => by
    simp only [allPlacedIn, allRecords, List.map_append]
    exact (keys_placedIn_sublist watch scope outline).append (keys_allPlacedIn_sublist watch scope rest)

end

end Outline

namespace TypeHandle

variable {lookup : Lookup} {hint : Option String} {handle : TypeHandle}

/-- The key of a handle has a name, or it has the spelling of sugar. -/
theorem recordKey?_named {key : RecordKey} (h : handle.recordKey? = some key) :
    Naming.isAnonymous key.name = false ∨
      ∃ target ∈ handle.canonical, handle.kind.names target ∧ key.name = Naming.ofRecord handle.spelling := by
  unfold recordKey? at h
  split at h
  · cases h
    exact Or.inl (isAnonymous_recordKeyOf _ _)
  · obtain ⟨kind, hkind, rfl⟩ := Option.map_eq_some_iff.1 h
    exact Or.inr ⟨_, rfl, by simp [TypeKind.names, TypeKind.isSugar, hkind], rfl⟩
  · obtain ⟨kind, -, rfl⟩ := Option.map_eq_some_iff.1 h
    exact Or.inl (isAnonymous_recordKeyOf _ _)
  · cases h

/-- Every key written for a handle is that of a handle inside it. -/
theorem key_written {watch : Watch} {scope : Scope} {key : RecordKey}
    (h : key ∈ ((handle.outline lookup hint).placedIn watch scope).keys) :
    ∃ part ∈ handle.inside, part.recordKey? = some key := by
  obtain ⟨pair, hpair, rfl⟩ := List.mem_map.1 ((Outline.keys_placedIn_sublist watch scope _).subset h)
  obtain ⟨part, hpart, hkey, -⟩ := carries_outline lookup hint handle hpair
  exact ⟨part, hpart, hkey⟩

/-- Sugar inside the handle that names a record has a name to give. -/
def SugarNamed (handle : TypeHandle) : Prop :=
  ∀ part ∈ handle.inside, ∀ target ∈ part.canonical, part.kind.names target →
    Naming.isAnonymous (Naming.ofRecord part.spelling) = false

instance (handle : TypeHandle) : Decidable handle.SugarNamed :=
  inferInstanceAs (Decidable (∀ part ∈ handle.inside, ∀ target ∈ part.canonical, part.kind.names target →
    Naming.isAnonymous (Naming.ofRecord part.spelling) = false))

variable (lookup hint handle)

/-- **Where sugar has a name to give, every record is written with a name**: no note stands for one, and no name is
empty. -/
theorem names_written (h : handle.SugarNamed) :
    (handle.resolve lookup hint).encoding = ((handle.outline lookup hint).placedIn (some []) .outer).encoding ∧
      ∀ key ∈ ((handle.outline lookup hint).placedIn (some []) .outer).keys,
        Naming.isAnonymous key.name = false := by
  refine ⟨encoding_resolve lookup hint handle, fun key hkey => ?_⟩
  obtain ⟨part, hpart, hkey⟩ := key_written hkey
  rcases recordKey?_named hkey with hnamed | ⟨target, htarget, hnames, hname⟩
  · exact hnamed
  · rw [hname]
    exact h part hpart target htarget hnames

/-- A typedef gives an unnamed union its name; an unnamed struct inside is written with a question mark. -/
theorem names_written_tagged :
    let payload : TypeHandle :=
      { kind := .record .struct, spelling := "struct (unnamed at a.h:2:3)",
        fields := [⟨"size", { kind := .scalar .int }⟩] }
    let tagged : TypeHandle :=
      { kind := .sugar .synonym, spelling := "Tagged",
        canonical := some
          { kind := .record .union, spelling := "union (unnamed at a.h:1:9)", fields := [⟨"payload", payload⟩] } }
    tagged.SugarNamed ∧
      (tagged.resolve .empty none).encoding = ((tagged.outline .empty none).placedIn (some []) .outer).encoding ∧
      ∀ key ∈ ((tagged.outline .empty none).placedIn (some []) .outer).keys,
        Naming.isAnonymous key.name = false := by
  intro payload tagged
  have h : tagged.SugarNamed := by decide +kernel
  exact ⟨h, names_written .empty none tagged h⟩

/-- Sugar that repeats the note of an unnamed record: the note is written as the name. -/
theorem note_written_elaborated :
    let note := "struct (unnamed at a.h:1:1)"
    let elaborated : TypeHandle :=
      { kind := .sugar .elaborated, spelling := note,
        canonical := some
          { kind := .record .struct, spelling := note, fields := [⟨"size", { kind := .scalar .int }⟩] } }
    (elaborated.resolve .empty none).encoding = .record .struct "(unnamed at a.h:1:1)" (some [['i']]) ∧
      Naming.isAnonymous "(unnamed at a.h:1:1)" = true := by
  decide +kernel

end TypeHandle

end HeaderCatalog
