import HeaderCatalog.Proofs.Describe.Met
import HeaderCatalog.Proofs.Registry.Coherent
import HeaderCatalog.Proofs.Session.Account
import HeaderCatalog.Proofs.Survey.Contributed

set_option autoImplicit false

/-!
# Registered blocks

A block is registered because a declaration met it.  Which blocks a declaration meets follows from the declaration and
the settings, so which blocks are registered can be read off the tree (`block_registered_iff`): those that the types of
the described declarations come to, directly or as what another block takes, each under the framework of the place of
the declaration.

What a block returns is not looked at.  A block that is nothing but what another one returns has no entry
(`returned_block_not_registered`).
-/

namespace HeaderCatalog

/-- A declaration meets a block with a signature: one of the types that it is described with comes to that block,
through what blocks take. -/
def Settings.MeetsBlock (settings : Settings) (node : Node) (signature : String) : Prop :=
  ∃ handle ∈ settings.describedTypes node, ∃ inner, Relation.ReflTransGen TypeHandle.Takes handle inner ∧
    ∃ call ∈ inner.blockCall?, call.spelling = signature

namespace Session

/-- The blocks noted for a declaration are those met in the types that it is described with. -/
theorem blocks_account (session : Session) (node : Node) : (session.account node).blocks =
    (session.surroundings.enter node).value.met (session.settings.describedTypes node) := by
  have hnamed {α : Type} (entries : α → List Entry) {noted : Noted α} {handles : List TypeHandle}
      (h : noted.blocks = (session.surroundings.enter node).value.met handles) :
      (if node.name.isEmpty then pure [] else entries <$> noted : Noted _).blocks =
        (session.surroundings.enter node).value.met (if node.name.isEmpty then [] else handles) := by
    split
    · rfl
    · exact (Noted.blocks_map entries noted).trans h
  unfold account Settings.describedTypes
  cases node.kind with
  | interface => exact hnamed _ (Surroundings.blocks_interface _ node)
  | protocol => exact hnamed _ (Surroundings.blocks_protocol _ node)
  | function => exact hnamed _ (Surroundings.blocks_function _ node)
  | global => exact hnamed _ (Surroundings.blocks_global _ node)
  | category => exact (Noted.blocks_map _ _).trans (Surroundings.blocks_category? _ node)
  | record kind => exact (Noted.blocks_map _ _).trans (Surroundings.blocks_record _ kind node)
  | enum =>
    dsimp only
    split
    · exact (Noted.blocks_map _ _).trans (Surroundings.blocks_anonymousConstants _ node)
    · exact (Noted.blocks_map _ _).trans (Surroundings.blocks_enum _ node)
  | synonym =>
    dsimp only
    cases hpending : session.pending.filter (namesRecord node ·.kind) with
    | none => exact hnamed _ (Surroundings.blocks_synonym _ node)
    | some unnamed =>
      -- What is behind the typedef is an unnamed record, or not reported, and no block in either case.
      have hnames : namesRecord node unnamed.kind = true := (Option.filter_eq_some_iff.1 hpending).2
      unfold namesRecord at hnames
      refine hnamed _ ((Surroundings.blocks_synonymOfRecord _ _ node).trans ?_)
      cases htype : node.type with
      | none => rfl
      | some handle =>
        rw [htype] at hnames
        exact (Surroundings.met_of_unnamedRecord? _ (by simpa using hnames)).symm
  | _ => rfl

/-- What each description of a declaration has, and every block that is met in it, all that is handed over has. -/
theorem EachDescribed.handedOver {P : Entry → Prop} {session : Session} {encounter : Encounter}
    (h : EachDescribed P session encounter.node)
    (hmet : ∀ block ∈ (session.surroundings.enter encounter.node).value.met
      (session.settings.describedTypes encounter.node), P (.block block)) :
    ∀ entry ∈ session.handedOver encounter, P entry := by
  unfold Session.handedOver
  split
  case isFalse => exact List.forall_mem_nil _
  case isTrue =>
    rw [submissions_eq, Noted.handsOver, List.forall_mem_append, List.forall_mem_map, blocks_account]
    exact ⟨hmet, h.account⟩

/-- The blocks noted for a declaration stand at its place, under the signatures that it meets. -/
theorem exists_block_account_iff (session : Session) (node : Node) (signature : String) (source : Source) :
    (∃ block ∈ (session.account node).blocks, block.signature = signature ∧ block.heading.source = source) ↔
      session.settings.MeetsBlock node signature ∧ source = session.settings.classify node.location := by
  simp only [blocks_account, Surroundings.mem_met]
  constructor
  · rintro ⟨_, ⟨handle, hhandle, inner, hinner, call, hcall, rfl⟩, rfl, rfl⟩
    exact ⟨⟨handle, hhandle, inner, hinner, call, hcall, rfl⟩, rfl⟩
  · rintro ⟨⟨handle, hhandle, inner, hinner, call, hcall, rfl⟩, rfl⟩
    exact ⟨_, ⟨handle, hhandle, inner, hinner, call, hcall, rfl⟩, rfl, rfl⟩

/-- The entry of a declaration itself is no block. -/
theorem block_not_mem_account (session : Session) (node : Node) (block : Block) :
    Entry.block block ∉ (session.account node).value := by
  have heach : EachDescribed (· ≠ .block block) session node := by
    constructor <;> simp
  exact fun hmem => heach.account _ hmem rfl

end Session

/-- Blocks are handed over where they are noted. -/
theorem block_mem_surveyHistory {root : Node} {settings : Settings} {block : Block} :
    .block block ∈ surveyHistory root settings ↔
      ∃ noted ∈ (Session.start settings).accounts (Node.encountersIn settings root.children), block ∈ noted.blocks := by
  rw [surveyHistory, Session.history_eq_flatMap, List.mem_flatMap]
  refine exists_congr fun noted => and_congr_right fun hnoted => ?_
  obtain ⟨earlier, node, later, -, rfl⟩ := Session.mem_accounts.1 hnoted
  have hvalue := Session.block_not_mem_account (earlier.foldl Session.meet (Session.start settings)) node block
  simp [Noted.handsOver, hvalue]

theorem Registry.isSome_block?_iff {registry : Registry} (h : registry.Keyed) {framework signature : String} :
    (registry.block? framework signature).isSome ↔ ⟨.block, framework, signature⟩ ∈ registry.keys := by
  rw [← mem_signatures_iff h, List.mem_map, Option.isSome_iff_exists]
  exact exists_congr fun block => block?_eq_some_iff h

/-- **Which blocks are registered**: those that a described declaration meets, under the framework of its place. -/
theorem block_registered_iff (root : Node) (settings : Settings) (framework signature : String) :
    ((survey root settings).registry.block? framework signature).isSome ↔
      ∃ node, ⟨node, .describe⟩ ∈ Node.encountersIn settings root.children ∧
        (settings.classify node.location).framework = framework ∧ settings.MeetsBlock node signature := by
  have hsettings (earlier : List Encounter) :
      (earlier.foldl Session.meet (Session.start settings)).settings = settings :=
    ((Session.start settings).gains_foldl_meet earlier).settings_eq
  rw [registry_survey, Registry.isSome_block?_iff (Registry.keyed_registerAll _), Registry.mem_keys_registerAll]
  constructor
  · rintro ⟨entry, hentry, hkey⟩
    obtain ⟨block, rfl⟩ := Entry.exists_block (by rw [← Entry.kind_key, hkey])
    obtain ⟨noted, hnoted, hblock⟩ := block_mem_surveyHistory.1 (List.mem_filter.1 hentry).1
    obtain ⟨earlier, node, later, hsplit, rfl⟩ := Session.mem_accounts.1 hnoted
    obtain ⟨hmeets, hsource⟩ := (Session.exists_block_account_iff _ node _ _).1 ⟨block, hblock, rfl, rfl⟩
    rw [hsettings earlier] at hmeets hsource
    have hnode : ⟨node, .describe⟩ ∈ Node.encountersIn settings root.children := by
      rw [hsplit]
      exact List.mem_append_right earlier List.mem_cons_self
    obtain ⟨-, rfl, rfl⟩ := EntryKey.mk.inj hkey
    exact ⟨node, hnode, by rw [Block.framework, hsource], hmeets⟩
  · rintro ⟨node, hnode, rfl, hmeets⟩
    obtain ⟨earlier, later, hsplit⟩ := List.append_of_mem hnode
    obtain ⟨block, hblock, hsignature, hsource⟩ := (Session.exists_block_account_iff
      (earlier.foldl Session.meet (Session.start settings)) node _ _).2 ⟨by rwa [hsettings], rfl⟩
    rw [hsettings] at hsource
    have hhistory : .block block ∈ surveyHistory root settings :=
      block_mem_surveyHistory.2 ⟨_, Session.mem_accounts.2 ⟨earlier, node, later, hsplit, rfl⟩, hblock⟩
    -- What is described is not at a place that is left out, and its blocks stand at the same place.
    have hkept : settings.excludes block.heading.source = false := by
      rw [hsource]
      exact (Bool.or_eq_false_iff.1 (Node.not_skips_of_mem_encountersIn hnode rfl)).2
    refine ⟨.block block, List.mem_filter.2 ⟨hhistory, congrArg (!·) hkept⟩, ?_⟩
    rw [Entry.key, Block.framework, hsource, hsignature]

/-- A variable that is a block which returns another block: only the outer one is registered. -/
theorem returned_block_not_registered :
    let inner : TypeHandle :=
      { kind := .blockPointer, spelling := "void (^)(void)", pointee := some { kind := .function true } }
    let outer : TypeHandle :=
      { kind := .blockPointer, spelling := "void (^(^)(int))(void)",
        pointee := some
          { kind := .function true, result := some inner, arguments := [{ kind := .scalar .int }] } }
    let root : Node :=
      { kind := .unit, children := [{ kind := .global, name := "makeHandler", type := some outer }] }
    ((survey root {}).registry.block? "" "void (^(^)(int))(void)").isSome ∧
      ((survey root {}).registry.block? "" "void (^)(void)").isNone := by
  decide +kernel

end HeaderCatalog
