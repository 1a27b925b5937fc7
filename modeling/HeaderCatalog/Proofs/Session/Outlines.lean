import HeaderCatalog.Proofs.Session.Account

set_option autoImplicit false

/-!
# What is certain of an account

The notes and the entries of an account are two things.  Its entries differ with what is known of named types, but which
kinds and headings they have does not: `Settings.outlines` reads these off the declaration, the settings and the record
that waits.  Its notes can be compared with those of an account made elsewhere (`within_account`).
-/

namespace HeaderCatalog

/-- Kind and heading of an entry. -/
def Entry.outline (entry : Entry) : EntryKind × Heading := (entry.kind, entry.heading)

/-- Kinds and headings of the entries that a declaration becomes when a record waits for its name, or none. -/
def Settings.outlines (settings : Settings) (pending : Option RecordEntry) (node : Node) : List (EntryKind × Heading) :=
  let own (kind : EntryKind) := [(kind, settings.headingOf kind node.name node)]
  let ifNamed (kind : EntryKind) := if node.name.isEmpty then [] else own kind
  match node.kind with
  | .interface => ifNamed .class_
  | .protocol => ifNamed .protocol
  | .category =>
    (Surroundings.extendedClass? node).toList.map fun extended =>
      (.extension, settings.headingOf .extension extended.name node)
  | .record kind => if Naming.isAnonymous node.name then [] else own (.record kind)
  | .enum =>
    if Surroundings.isAnonymousEnum node then
      (settings.availableConstants node).map fun constant =>
        (.global, settings.headingOf .global constant.name constant)
    else own .enum
  | .function => ifNamed .function
  | .global => ifNamed .global
  | .synonym =>
    if node.name.isEmpty then []
    else
      (pending.filter (Session.namesRecord node ·.kind)).toList.map (fun unnamed =>
        (.record unnamed.kind, { unnamed.heading with name := node.name })) ++ own .synonym
  | _ => []

/-- An outline of a declaration has a heading made from the declaration or from a part of it, and only a category
becomes an extension; the record that a typedef names keeps its own heading, but for the name. -/
theorem Settings.cases_of_mem_outlines {settings : Settings} {pending : Option RecordEntry} {node : Node}
    {outline : EntryKind × Heading} (h : outline ∈ settings.outlines pending node) :
    (∃ name declaration, outline.2 = settings.headingOf outline.1 name declaration ∧
        (outline.1 = .extension → node.kind = .category)) ∨
      ∃ record ∈ pending, outline = (.record record.kind, { record.heading with name := node.name }) := by
  have hown {kind : EntryKind} (hkind : kind ≠ .extension)
      (hmem : outline ∈ [(kind, settings.headingOf kind node.name node)]) :
      ∃ name declaration, outline.2 = settings.headingOf outline.1 name declaration ∧
        (outline.1 = .extension → node.kind = .category) := by
    obtain rfl := List.mem_singleton.1 hmem
    exact ⟨node.name, node, rfl, fun hextension => absurd hextension hkind⟩
  have hnamed {kind : EntryKind} (hkind : kind ≠ .extension)
      (hmem : outline ∈ if node.name.isEmpty then [] else [(kind, settings.headingOf kind node.name node)]) :
      ∃ name declaration, outline.2 = settings.headingOf outline.1 name declaration ∧
        (outline.1 = .extension → node.kind = .category) := by
    split at hmem
    · cases hmem
    · exact hown hkind hmem
  unfold outlines at h
  cases hkind : node.kind with
  | interface | protocol | function | global =>
    rw [hkind] at h
    rw [← hkind]
    exact Or.inl (hnamed (by decide) h)
  | category =>
    rw [hkind] at h
    obtain ⟨extended, -, rfl⟩ := List.mem_map.1 h
    exact Or.inl ⟨extended.name, node, rfl, fun _ => rfl⟩
  | record kind =>
    rw [hkind] at h
    rw [← hkind]
    dsimp only at h
    split at h
    · cases h
    · have hrecord : EntryKind.record kind ≠ .extension := nofun
      exact Or.inl (hown hrecord h)
  | enum =>
    rw [hkind] at h
    rw [← hkind]
    dsimp only at h
    split at h
    · obtain ⟨constant, -, rfl⟩ := List.mem_map.1 h
      exact Or.inl ⟨constant.name, constant, rfl, nofun⟩
    · exact Or.inl (hown (by decide) h)
  | synonym =>
    rw [hkind] at h
    rw [← hkind]
    dsimp only at h
    split at h
    · cases h
    rcases List.mem_append.1 h with hrecord | hsynonym
    · obtain ⟨unnamed, hunnamed, rfl⟩ := List.mem_map.1 hrecord
      exact Or.inr ⟨unnamed, (Option.filter_eq_some_iff.1 (Option.mem_toList.1 hunnamed)).1, rfl⟩
    · exact Or.inl (hown (by decide) hsynonym)
  | _ =>
    rw [hkind] at h
    cases h

/-- All entries of a declaration stand at places that come from classifying, except the record that a typedef names. -/
theorem Settings.source_of_mem_outlines {settings : Settings} {pending : Option RecordEntry} {node : Node}
    {outline : EntryKind × Heading} (h : outline ∈ settings.outlines pending node) :
    (∃ location, outline.2.source = settings.classify location) ∨
      ∃ record ∈ pending, outline.2.source = record.heading.source := by
  rcases cases_of_mem_outlines h with ⟨name, declaration, hheading, -⟩ | ⟨record, hrecord, rfl⟩
  · exact Or.inl ⟨declaration.location, by rw [hheading]; rfl⟩
  · exact Or.inr ⟨record, hrecord, rfl⟩

/-- Settings that take less away leave a declaration all the outlines that it has. -/
theorem Settings.outlines_subset {strict loose : Settings} (h : strict.Tightens loose) (pending : Option RecordEntry)
    (node : Node) : strict.outlines pending node ⊆ loose.outlines pending node := by
  have hheadings : strict.headingOf = loose.headingOf := by
    funext kind name declaration
    unfold headingOf
    rw [h.classify_eq]
  unfold outlines
  rw [hheadings]
  cases node.kind with
  | enum =>
    dsimp only
    split
    · exact List.map_subset _ (h.availableConstants_subset node)
    · exact List.Subset.refl _
  | _ => exact List.Subset.refl _

namespace Session

/-- The entries of an account have the outlines of their declaration, in order. -/
theorem outlines_account (session : Session) (node : Node) :
    (session.account node).value.map (·.outline) = session.settings.outlines session.pending node := by
  have hclass {entry : ClassEntry} {kind : ClassKind} {heading : Heading} (hkind : entry.kind = kind)
      (hheading : entry.heading = heading) : (Entry.class_ entry).outline = (kind.entryKind, heading) := by
    rw [← hkind, ← hheading]
    rfl
  unfold account Settings.outlines
  cases node.kind with
  | interface =>
    dsimp only
    split
    · rfl
    · exact congrArg ([·]) (hclass (Surroundings.kind_interface _ node) (Surroundings.heading_interface _ node))
  | protocol =>
    dsimp only
    split
    · rfl
    · exact congrArg ([·]) (hclass (Surroundings.kind_protocol _ node) (Surroundings.heading_protocol _ node))
  | function =>
    dsimp only
    split
    · rfl
    · exact congrArg (fun heading => [(EntryKind.function, heading)]) (Surroundings.heading_function _ node)
  | global =>
    dsimp only
    split <;> rfl
  | category =>
    dsimp only
    cases hextended : Surroundings.extendedClass? node with
    | none => rw [Surroundings.category?_of_none _ hextended]; rfl
    | some extended =>
      obtain ⟨entry, hvalue, hkind, hheading⟩ := Surroundings.category?_of_some session.surroundings hextended
      rw [Noted.value_map, hvalue]
      exact congrArg ([·]) (hclass hkind hheading)
  | record kind =>
    have hanonymous : (session.surroundings.record kind node).value.isAnonymous = Naming.isAnonymous node.name := rfl
    dsimp only
    rw [Noted.value_map, hanonymous]
    split <;> rfl
  | enum =>
    dsimp only
    split
    · have hheadings := Surroundings.headings_anonymousConstants session.surroundings node
      have hglobals := congrArg (List.map (Prod.mk EntryKind.global)) hheadings
      rw [List.map_map, List.map_map] at hglobals
      rw [Noted.value_map, List.map_map]
      exact hglobals
    · rfl
  | synonym =>
    dsimp only
    split
    · rfl
    · cases session.pending.filter (namesRecord node ·.kind) <;> rfl
  | _ => rfl

/-- Only a category becomes an extension. -/
theorem kind_of_mem_account {session : Session} {node : Node} (h : node.kind ≠ .category) {entry : Entry}
    (hentry : entry ∈ (session.account node).handsOver id) : entry.kind ≠ .extension := by
  intro hextension
  rcases List.mem_append.1 hentry with hblock | hvalue
  · obtain ⟨block, -, rfl⟩ := List.mem_map.1 hblock
    cases hextension
  · have houtline : entry.outline ∈ session.settings.outlines session.pending node := by
      rw [← outlines_account]
      exact List.mem_map_of_mem hvalue
    rcases Settings.cases_of_mem_outlines houtline with ⟨-, -, -, hcategory⟩ | ⟨record, -, hrecord⟩
    · exact h (hcategory hextension)
    · have hkind : entry.kind = .record record.kind := congrArg Prod.fst hrecord
      rw [hextension] at hkind
      cases hkind

/-- Two sessions in which the same record waits, or none, note alike what they describe, whatever each of them knows of
named types. -/
theorem within_account {P : Source → Prop} {session other : Session}
    (h : session.surroundings.Tightens P other.surroundings) (hpending : session.pending = other.pending)
    (node : Node) :
    (session.account node).Within P (other.account node) := by
  have hnamed {x y : Noted (List Entry)} (hxy : x.Within P y) :
      (if node.name.isEmpty then pure [] else x).Within P (if node.name.isEmpty then pure [] else y) := by
    split
    · exact Noted.within_pure _ _
    · exact hxy
  unfold account
  cases node.kind with
  | interface => exact hnamed ((Surroundings.within_interface h node).map _ _)
  | protocol => exact hnamed ((Surroundings.within_protocol h node).map _ _)
  | function => exact hnamed ((Surroundings.within_function h node).map _ _)
  | global => exact hnamed ((Surroundings.within_global h node).map _ _)
  | category => exact (Surroundings.within_category? h node).map _ _
  | record kind => exact (Surroundings.within_record h kind node).map _ _
  | enum =>
    dsimp only
    split
    · exact (Surroundings.within_anonymousConstants h node).map _ _
    · exact (Surroundings.within_enum h node).map _ _
  | synonym =>
    dsimp only
    rw [hpending]
    refine hnamed ?_
    cases other.pending.filter (namesRecord node ·.kind) with
    | none => exact (Surroundings.within_synonym h node).map _ _
    | some unnamed => exact (Surroundings.within_synonymOfRecord h _ _ node).map _ _
  | _ => exact Noted.within_pure _ _

end Session

end HeaderCatalog
