import HeaderCatalog.Proofs.Describe.Heading
import HeaderCatalog.Proofs.Session.Submissions
import HeaderCatalog.Proofs.Survey.Contributed

set_option autoImplicit false

/-!
# The names in a catalogue

Which names the collections of a catalogue list can be read off the declarations that count: `refs` gives the entries
that one of them always becomes, whatever the session knows.  Records and blocks are left out of this account, a record
because a typedef may have to name it first, a block because it is met inside the types of other declarations.
-/

namespace HeaderCatalog

/-- Whether a collection can be told from the declarations of a tree one by one. -/
def EntryKind.isPlain : EntryKind → Bool
  | record _ | block => false
  | _ => true

namespace Node

/-! ## The entries of a declaration -/

/-- The constants of an enumeration that apply and are not left out. -/
def constants (settings : Settings) (node : Node) : List Node :=
  (node.childrenOf .enumConstant).filter fun constant =>
    constant.isAvailable settings.minVersion && !settings.excludes (settings.classify constant.location)

/-- A declaration, if it has a name. -/
def ifNamed (node : Node) : List Node := if node.name.isEmpty then [] else [node]

/-- The entry of a kind under the name of a node. -/
def refTo (kind : EntryKind) (node : Node) : EntryRef := ⟨kind, node.name⟩

/-- The plain collection that a declaration shows in, and the nodes that it stands there for. -/
def share (settings : Settings) (node : Node) : Option (EntryKind × List Node) :=
  match node.kind with
  | .interface => some (.class_, node.ifNamed)
  | .protocol => some (.protocol, node.ifNamed)
  | .category => some (.extension, (node.child? .classRef).toList)
  | .enum =>
    if Surroundings.isAnonymousEnum node then some (.global, node.constants settings) else some (.enum, [node])
  | .function => some (.function, node.ifNamed)
  | .global => some (.global, node.ifNamed)
  | .synonym => some (.synonym, node.ifNamed)
  | _ => none

/-- The entries of plain collections that a declaration becomes, in order. -/
def refs (settings : Settings) (node : Node) : List EntryRef :=
  match node.share settings with
  | some (kind, nodes) => nodes.map (refTo kind)
  | none => []

end Node

/-- The entries of plain collections among those handed over that are kept. -/
def Settings.plainRefs (settings : Settings) (entries : List Entry) : List EntryRef :=
  ((entries.filter settings.keeps).map (·.ref)).filter (·.kind.isPlain)

section PlainRefs

variable {settings : Settings}

theorem plainRefs_append (first second : List Entry) :
    settings.plainRefs (first ++ second) = settings.plainRefs first ++ settings.plainRefs second := by
  simp [Settings.plainRefs]

theorem plainRefs_handsOver {α : Type} (noted : Noted α) (entries : α → List Entry) :
    settings.plainRefs (noted.handsOver entries) = settings.plainRefs (entries noted.value) := by
  have hblocks : settings.plainRefs (noted.blocks.map .block) = [] := by
    unfold Settings.plainRefs
    rw [List.filter_eq_nil_iff]
    intro ref href
    obtain ⟨entry, hentry, rfl⟩ := List.mem_map.1 href
    obtain ⟨block, -, rfl⟩ := List.mem_map.1 (List.mem_filter.1 hentry).1
    exact Bool.false_ne_true
  rw [Noted.handsOver, plainRefs_append, hblocks, List.nil_append]

theorem plainRefs_record (entry : RecordEntry) (rest : List Entry) :
    settings.plainRefs (.record entry :: rest) = settings.plainRefs rest := by
  unfold Settings.plainRefs
  rw [List.filter_cons]
  split
  · rfl
  · rfl

theorem plainRefs_singleton {entry : Entry} (hplain : entry.kind.isPlain = true)
    (hplace : settings.excludes entry.heading.source = false) : settings.plainRefs [entry] = [entry.ref] := by
  have hkeeps : settings.keeps entry = true := by simp [Settings.keeps, hplace]
  unfold Settings.plainRefs
  rw [List.filter_cons_of_pos hkeeps, List.filter_nil, List.map_singleton]
  simp [Entry.ref, hplain]

/-- Variables are kept or left out each by its own place. -/
theorem plainRefs_globals (entries : List GlobalEntry) :
    settings.plainRefs (entries.map .global) =
      ((entries.map (·.heading)).filter fun heading => !settings.excludes heading.source).map
        fun heading => (⟨.global, heading.name⟩ : EntryRef) := by
  induction entries with
  | nil => rfl
  | cons entry rest ih =>
    rw [List.map_cons, ← List.singleton_append, plainRefs_append, ih, List.map_cons]
    cases hplace : settings.excludes entry.heading.source with
    | false =>
      rw [plainRefs_singleton rfl hplace, List.filter_cons_of_pos (by simp [hplace])]
      rfl
    | true =>
      rw [List.filter_cons_of_neg (by simp [hplace])]
      simp [Settings.plainRefs, Settings.keeps, Entry.heading, hplace]

end PlainRefs

namespace Session

variable {session : Session} {node : Node}

/-- A description of a declaration that is not left out becomes one entry of its kind, under its name. -/
theorem plainRefs_described {α : Type} (toEntry : α → Entry) {noted : Noted α} {kind : EntryKind}
    (hskips : session.settings.skips node = false) (hkind : (toEntry noted.value).kind = kind)
    (hheading : (toEntry noted.value).heading = session.settings.headingOf kind node.name node)
    (hplain : kind.isPlain = true) :
    session.settings.plainRefs (noted.handsOver fun value => [toEntry value]) = [node.refTo kind] := by
  have hplace := (Bool.or_eq_false_iff.1 hskips).2
  rw [plainRefs_handsOver, plainRefs_singleton (by rwa [hkind]) (by rwa [hheading])]
  simp [Entry.ref, Entry.name, Node.refTo, hkind, hheading]

theorem plainRefs_ifNamed {α : Type} (toEntry : α → Entry) {noted : Noted α} {kind : EntryKind}
    (hskips : session.settings.skips node = false) (hkind : (toEntry noted.value).kind = kind)
    (hheading : (toEntry noted.value).heading = session.settings.headingOf kind node.name node)
    (hplain : kind.isPlain = true) :
    session.settings.plainRefs
      (if node.name.isEmpty then [] else noted.handsOver fun value => [toEntry value]) =
      node.ifNamed.map (Node.refTo kind) := by
  unfold Node.ifNamed
  split
  · rfl
  · exact plainRefs_described toEntry hskips hkind hheading hplain

/-- A category becomes an entry under the name of its class, if it names one. -/
theorem plainRefs_category (hskips : session.settings.skips node = false) :
    session.settings.plainRefs ((session.surroundings.category? node).handsOver fun entry =>
      (entry.map .class_).toList) =
      (node.child? .classRef).toList.map (Node.refTo .extension) := by
  have hplace := (Bool.or_eq_false_iff.1 hskips).2
  rw [plainRefs_handsOver]
  cases hextended : node.child? .classRef with
  | none =>
    rw [Surroundings.category?_of_none _ hextended]
    rfl
  | some extended =>
    obtain ⟨entry, hvalue, hkind, hheading⟩ := Surroundings.category?_of_some session.surroundings hextended
    have hentryKind : (Entry.class_ entry).kind = .extension := by rw [Entry.kind, hkind]; rfl
    have hentryHeading : (Entry.class_ entry).heading = session.settings.headingOf .extension extended.name node :=
      hheading
    rw [hvalue, Option.map_some, Option.toList_some,
      plainRefs_singleton (by rw [hentryKind]; rfl) (by rw [hentryHeading]; exact hplace)]
    simp [Entry.ref, Entry.name, Node.refTo, hentryKind, hentryHeading]

theorem plainRefs_constants (session : Session) (node : Node) :
    session.settings.plainRefs ((session.surroundings.anonymousConstants node).handsOver (·.map .global)) =
      (node.constants session.settings).map (Node.refTo .global) := by
  rw [plainRefs_handsOver, plainRefs_globals, Surroundings.headings_anonymousConstants, List.filter_map, List.map_map]
  unfold Surroundings.availableConstants Node.constants
  rw [List.filter_filter]
  simp [Function.comp_def, Bool.and_comm, surroundings, Node.refTo]

/-- What a declaration that is not left out becomes does not depend on what the session knows. -/
theorem plainRefs_submissions (hskips : session.settings.skips node = false) :
    session.settings.plainRefs (session.submissions node) = node.refs session.settings := by
  unfold submissions Node.refs Node.share
  cases hkind : node.kind with
  | interface =>
    refine plainRefs_ifNamed Entry.class_ hskips ?_ (Surroundings.heading_interface _ node) rfl
    rw [Entry.kind, Surroundings.kind_interface]
    rfl
  | protocol =>
    refine plainRefs_ifNamed Entry.class_ hskips ?_ (Surroundings.heading_protocol _ node) rfl
    rw [Entry.kind, Surroundings.kind_protocol]
    rfl
  | category => exact plainRefs_category hskips
  | record kind =>
    dsimp only
    rw [plainRefs_handsOver]
    split
    · rfl
    · exact plainRefs_record _ []
  | enum =>
    dsimp only
    split
    · exact plainRefs_constants session node
    · exact plainRefs_described Entry.enum hskips rfl (Surroundings.heading_enum _ node) rfl
  | function =>
    exact plainRefs_ifNamed Entry.function hskips rfl (Surroundings.heading_function _ node) rfl
  | global => exact plainRefs_ifNamed Entry.global hskips rfl (Surroundings.heading_global _ node) rfl
  | synonym =>
    dsimp only
    cases session.pending.filter (namesRecord node ·.kind) with
    | none => exact plainRefs_ifNamed Entry.synonym hskips rfl (Surroundings.heading_synonym _ node) rfl
    | some unnamed =>
      unfold Node.ifNamed
      split
      · rfl
      · rw [plainRefs_record]
        exact plainRefs_described Entry.synonym hskips rfl (Surroundings.heading_synonymOfRecord _ _ node) rfl
  | _ => rfl

/-- Along a list of declarations, the entries of plain collections are those of the declarations described. -/
theorem plainRefs_history (session : Session) {encounters : List Encounter}
    (h : ∀ encounter ∈ encounters, encounter.treatment = .describe →
      session.settings.skips encounter.node = false) :
    session.settings.plainRefs (session.history encounters) =
      (Node.described encounters).flatMap (·.refs session.settings) := by
  induction encounters generalizing session with
  | nil => rfl
  | cons encounter rest ih =>
    have hsettings := (session.gains_meet encounter).settings_eq
    have hrest := ih (session.meet encounter) fun later hlater => by
      rw [hsettings]
      exact h later (List.mem_cons_of_mem _ hlater)
    rw [hsettings] at hrest
    rw [history, plainRefs_append, hrest, ← List.singleton_append, Node.described_append, List.flatMap_append]
    congr 1
    unfold handedOver
    by_cases htreatment : encounter.treatment = .describe
    · rw [if_pos htreatment, plainRefs_submissions (h encounter List.mem_cons_self htreatment)]
      simp [Node.described, htreatment]
    · rw [if_neg htreatment]
      simp [Node.described, htreatment, Settings.plainRefs]

end Session

/-! ## The names of a run -/

theorem plainRefs_surveyHistory (root : Node) (settings : Settings) :
    settings.plainRefs (surveyHistory root settings) =
      (Node.contributedIn settings root.children).flatMap (·.refs settings) := by
  rw [← Node.described_encountersIn]
  exact (Session.start settings).plainRefs_history fun _ => Node.not_skips_of_mem_encountersIn

namespace Node

/-- The names under which a declaration shows in a plain collection. -/
def namesIn (settings : Settings) (kind : EntryKind) (node : Node) : List String :=
  ((node.refs settings).filter (·.kind = kind)).map (·.name)

end Node

/-- What is kept of a plain collection is found among the references to plain collections. -/
theorem names_plainRefs (settings : Settings) (entries : List Entry) {kind : EntryKind} (h : kind.isPlain = true) :
    ((entries.filter settings.keeps).filter (·.kind = kind)).map (·.name) =
      ((settings.plainRefs entries).filter (·.kind = kind)).map (·.name) := by
  have hfilter : (settings.plainRefs entries).filter (·.kind = kind) =
      ((entries.filter settings.keeps).map (·.ref)).filter (·.kind = kind) := by
    unfold Settings.plainRefs
    rw [List.filter_filter]
    refine List.filter_congr fun ref _ => ?_
    by_cases hkind : ref.kind = kind
    · simp [hkind, h]
    · simp [hkind]
  rw [hfilter, List.filter_map, List.map_map]
  rfl

/-- A plain collection lists the names of the declarations that count, each once and where it comes first. -/
theorem names_survey_of_plain (root : Node) (settings : Settings) {kind : EntryKind} (h : kind.isPlain = true) :
    (survey root settings).registry.names kind =
      ((Node.contributedIn settings root.children).flatMap (Node.namesIn settings kind)).eraseDups := by
  have hblock : kind ≠ .block := by
    rintro rfl
    cases h
  rw [registry_survey, Registry.names_registerAll _ hblock, names_plainRefs settings _ h, plainRefs_surveyHistory,
    List.filter_flatMap, List.map_flatMap]
  rfl

namespace Node

/-- The names of the declarations of a kind that have one. -/
def properNames (nodes : List Node) (kind : NodeKind) : List String :=
  ((nodes.filter (·.kind = kind)).map (·.name)).filter (!·.isEmpty)

/-- The names of the variables that a declaration stands for: its own, or those of the constants of an enumeration
without a name. -/
def variableNames (settings : Settings) (node : Node) : List String :=
  match node.kind with
  | .global => node.ifNamed.map (·.name)
  | .enum => if Surroundings.isAnonymousEnum node then (node.constants settings).map (·.name) else []
  | _ => []

variable (settings : Settings) (node : Node)

theorem names_refTo (nodes : List Node) (refKind kind : EntryKind) :
    ((nodes.map (refTo refKind)).filter (·.kind = kind)).map (·.name) =
      if refKind = kind then nodes.map (·.name) else [] := by
  induction nodes with
  | nil => simp
  | cons node rest ih =>
    by_cases hkind : refKind = kind
    · simpa [refTo, hkind] using ih
    · simp [refTo, hkind]

theorem namesIn_eq (kind : EntryKind) : node.namesIn settings kind =
    match node.share settings with
    | some (shown, nodes) => if shown = kind then nodes.map (·.name) else []
    | none => [] := by
  unfold namesIn refs
  cases node.share settings with
  | none => rfl
  | some share => exact names_refTo share.2 share.1 kind

/-- The collections that are filled by one kind of declaration, which must have a name. -/
def namedKinds : List (NodeKind × EntryKind) :=
  [(.interface, .class_), (.protocol, .protocol), (.function, .function), (.synonym, .synonym)]

theorem namesIn_named {declared : NodeKind} {kind : EntryKind} (h : (declared, kind) ∈ namedKinds) :
    node.namesIn settings kind = if node.kind = declared then node.ifNamed.map (·.name) else [] := by
  rw [namesIn_eq]
  unfold share
  simp only [namedKinds, List.mem_cons, Prod.mk.injEq, List.not_mem_nil, or_false] at h
  rcases h with ⟨rfl, rfl⟩ | ⟨rfl, rfl⟩ | ⟨rfl, rfl⟩ | ⟨rfl, rfl⟩
  all_goals
    cases node.kind with
    | enum => cases Surroundings.isAnonymousEnum node <;> rfl
    | _ => rfl

theorem namesIn_enum : node.namesIn settings .enum =
    if node.kind = .enum ∧ !Surroundings.isAnonymousEnum node then [node.name] else [] := by
  rw [namesIn_eq]
  unfold share
  cases node.kind with
  | enum => cases Surroundings.isAnonymousEnum node <;> rfl
  | _ => rfl

theorem namesIn_extension : node.namesIn settings .extension =
    if node.kind = .category then ((node.child? .classRef).map (·.name)).toList else [] := by
  rw [namesIn_eq]
  unfold share
  cases node.kind with
  | enum => cases Surroundings.isAnonymousEnum node <;> rfl
  | category => cases node.child? .classRef <;> rfl
  | _ => rfl

theorem namesIn_global : node.namesIn settings .global = node.variableNames settings := by
  rw [namesIn_eq]
  unfold share variableNames
  cases node.kind with
  | enum => cases Surroundings.isAnonymousEnum node <;> rfl
  | _ => rfl

theorem flatMap_namesIn_named {declared : NodeKind} {kind : EntryKind} (h : (declared, kind) ∈ namedKinds)
    (nodes : List Node) : nodes.flatMap (namesIn settings kind) = properNames nodes declared := by
  unfold properNames
  induction nodes with
  | nil => rfl
  | cons node rest ih =>
    rw [List.flatMap_cons, ih, namesIn_named settings node h]
    unfold ifNamed
    by_cases hkind : node.kind = declared
    · by_cases hname : node.name.isEmpty = true
      · simp [hkind, hname]
      · simp [hkind, hname]
    · simp [hkind]

theorem flatMap_namesIn_enum (nodes : List Node) :
    nodes.flatMap (namesIn settings .enum) =
      (nodes.filter fun node => node.kind = .enum ∧ !Surroundings.isAnonymousEnum node).map (·.name) := by
  induction nodes with
  | nil => rfl
  | cons node rest ih =>
    rw [List.flatMap_cons, ih, namesIn_enum]
    by_cases hnamed : node.kind = .enum ∧ !Surroundings.isAnonymousEnum node
    · rw [if_pos hnamed, List.filter_cons_of_pos (by simpa using hnamed)]
      rfl
    · rw [if_neg hnamed, List.filter_cons_of_neg (by simpa using hnamed)]
      rfl

theorem flatMap_namesIn_extension (nodes : List Node) :
    nodes.flatMap (namesIn settings .extension) =
      ((nodes.filter (·.kind = .category)).filterMap (·.child? .classRef)).map (·.name) := by
  induction nodes with
  | nil => rfl
  | cons node rest ih =>
    rw [List.flatMap_cons, ih, namesIn_extension]
    by_cases hkind : node.kind = .category
    · rw [if_pos hkind, List.filter_cons_of_pos (by simpa using hkind)]
      cases hextended : node.child? .classRef with
      | none => simp [hextended]
      | some extended => simp [hextended]
    · rw [if_neg hkind, List.filter_cons_of_neg (by simpa using hkind)]
      rfl

end Node

/-- **The names in a catalogue.**  A collection lists the names of the declarations that count, each once, in the order
of the tree: classes, protocols, functions and typedefs those that have a name, enumerations those that are not
anonymous, extensions the class that each category names first, and variables also the constants of anonymous
enumerations. -/
theorem names_survey (root : Node) (settings : Settings) :
    let contributed := Node.contributedIn settings root.children
    let names := (survey root settings).registry.names
    names .class_ = (Node.properNames contributed .interface).eraseDups ∧
    names .protocol = (Node.properNames contributed .protocol).eraseDups ∧
    names .function = (Node.properNames contributed .function).eraseDups ∧
    names .synonym = (Node.properNames contributed .synonym).eraseDups ∧
    names .enum =
      ((contributed.filter fun node => node.kind = .enum ∧ !Surroundings.isAnonymousEnum node).map
        (·.name)).eraseDups ∧
    names .extension =
      (((contributed.filter (·.kind = .category)).filterMap (·.child? .classRef)).map (·.name)).eraseDups ∧
    names .global = (contributed.flatMap (Node.variableNames settings)).eraseDups := by
  intro contributed names
  have hnamed : ∀ {declared : NodeKind} {kind : EntryKind}, (declared, kind) ∈ Node.namedKinds →
      kind.isPlain = true → names kind = (Node.properNames contributed declared).eraseDups := by
    intro declared kind hkinds hplain
    rw [← Node.flatMap_namesIn_named settings hkinds]
    exact names_survey_of_plain root settings hplain
  refine ⟨hnamed (by decide) rfl, hnamed (by decide) rfl, hnamed (by decide) rfl, hnamed (by decide) rfl, ?_, ?_, ?_⟩
  · rw [← Node.flatMap_namesIn_enum settings]
    exact names_survey_of_plain root settings rfl
  · rw [← Node.flatMap_namesIn_extension settings]
    exact names_survey_of_plain root settings rfl
  · rw [← funext (Node.namesIn_global settings)]
    exact names_survey_of_plain root settings rfl

end HeaderCatalog
