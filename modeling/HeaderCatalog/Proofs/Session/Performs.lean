import HeaderCatalog.Proofs.Session.Account
import HeaderCatalog.Proofs.Session.InPlace

set_option autoImplicit false

/-!
# Describing in place and taking over notes

Work in place comes to the same as describing first and taking over the notes afterwards (`performs_build`).  What makes
it so is that notes can be taken over in parts (`Session.absorb_bind`), and that the surroundings are the same behind
each part but for the place where the session is (`Session.surroundings_absorb`): the blocks that are registered on the
way tell resolution nothing.
-/

namespace HeaderCatalog

/-! ## Taking over notes in parts -/

namespace Session

theorem absorb_bind {α β : Type} (session : Session) (noted : Noted α) (f : α → Noted β) :
    session.absorb (noted >>= f) = (session.absorb noted).absorb (f noted.value) := by
  have hlocated : ((f noted.value).located.or noted.located).getD session.location =
      (f noted.value).located.getD (noted.located.getD session.location) := by
    cases (f noted.value).located <;> rfl
  rw [absorb_eq, absorb_eq, absorb_eq]
  simp only [Noted.located_bind, Noted.references_bind, Noted.blocks_bind, hlocated, List.foldl_append,
    List.map_append, List.filter_append, Registry.registerAll_append]

theorem surroundings_absorb {α : Type} (session : Session) (noted : Noted α) :
    (session.absorb noted).surroundings =
      { session.surroundings with source := noted.located.getD session.surroundings.source } := by
  unfold surroundings
  rw [lookup_absorb, (heeds_absorb session noted).settings_eq, (heeds_absorb session noted).location_eq]

end Session

/-! ## Performing a description -/

namespace Working

variable {α β : Type} {here : Surroundings}

/-- In a session with certain surroundings, work yields the value of a description and leaves the session behind that
takes over its notes. -/
def Performs (work : Working α) (here : Surroundings) (noted : Noted α) : Prop :=
  ∀ session, session.surroundings = here → work.run session = (noted.value, session.absorb noted)

theorem Performs.bind {work : Working α} {next : α → Working β} {noted : Noted α} {f : α → Noted β}
    (h : work.Performs here noted)
    (hnext : (next noted.value).Performs { here with source := noted.located.getD here.source } (f noted.value)) :
    (work >>= next).Performs here (noted >>= f) := by
  intro session hsession
  have hrun : (work >>= next).run session = (next (work.run session).1).run (work.run session).2 := rfl
  -- The notes of the first part are taken over by now, and the second part finds nothing changed but the place.
  have hplace : (session.absorb noted).surroundings = { here with source := noted.located.getD here.source } := by
    rw [session.surroundings_absorb, hsession]
  rw [hrun, h session hsession, hnext _ hplace, session.absorb_bind]
  rfl

theorem performs_pure (value : α) : (pure value : Working α).Performs here (pure value) := fun _ _ => rfl

theorem Performs.map {work : Working α} {noted : Noted α} (h : work.Performs here noted) (f : α → β) :
    (f <$> work).Performs here (f <$> noted) := by
  rw [← bind_pure_comp, ← bind_pure_comp]
  exact h.bind (performs_pure (f noted.value))

/-- What is read of the session are the surroundings it is in. -/
theorem performs_surroundings {next : Surroundings → Working α} {noted : Noted α}
    (h : (next here).Performs here noted) : (surroundings >>= next).Performs here noted := by
  intro session hsession
  have hrun : (surroundings >>= next).run session = (next session.surroundings).run session := rfl
  rw [hrun, hsession, h session hsession]

/-- Going to a declaration: the rest is done there. -/
theorem performs_enter {kind : EntryKind} {name : String} {node : Node} {next : Heading → Working α}
    {f : Surroundings → Noted α}
    (h : (next ((here.enter node).value.heading kind name node)).Performs (here.enter node).value
      (f (here.enter node).value)) :
    (enter kind name node >>= next).Performs here (here.enter node >>= f) := by
  have henter : (enter kind name node).Performs here
      ((fun there => there.heading kind name node) <$> here.enter node) := by
    rintro session rfl
    rfl
  have hbind : (enter kind name node >>= next).Performs here
      ((fun there : Surroundings => there.heading kind name node) <$> here.enter node >>=
        fun _ => f (here.enter node).value) :=
    henter.bind h
  exact hbind

/-! ### Work that goes nowhere -/

/-- Work that performs a description and stays where it is. -/
structure PerformsThere (work : Working α) (here : Surroundings) (noted : Noted α) : Prop where
  performs : work.Performs here noted
  located_eq : noted.located = none

theorem performsThere_pure (value : α) : (pure value : Working α).PerformsThere here (pure value) :=
  ⟨performs_pure value, rfl⟩

namespace PerformsThere

variable {work : Working α} {next : α → Working β} {noted : Noted α} {f : α → Noted β}

/-- Behind work that stays where it is, the surroundings are the same. -/
theorem andThen (h : work.PerformsThere here noted) (hnext : (next noted.value).Performs here (f noted.value)) :
    (work >>= next).Performs here (noted >>= f) := by
  refine h.performs.bind ?_
  rw [h.located_eq]
  exact hnext

theorem bind (h : work.PerformsThere here noted) (hnext : (next noted.value).PerformsThere here (f noted.value)) :
    (work >>= next).PerformsThere here (noted >>= f) := by
  refine ⟨h.andThen hnext.performs, ?_⟩
  rw [Noted.located_bind, hnext.located_eq, h.located_eq]
  rfl

end PerformsThere

theorem performsThere_mapM {f : α → Working β} {g : α → Noted β} {values : List α}
    (h : ∀ value ∈ values, (f value).PerformsThere here (g value)) :
    (values.mapM f).PerformsThere here (values.mapM g) := by
  induction values with
  | nil => exact performsThere_pure []
  | cons value rest ih =>
    rw [List.mapM_cons, List.mapM_cons]
    refine (h value List.mem_cons_self).bind ?_
    exact (ih fun later hlater => h later (List.mem_cons_of_mem value hlater)).bind (performsThere_pure _)

theorem performsThere_foldlM {f : β → α → Working β} {g : β → α → Noted β} {values : List α}
    (h : ∀ start value, (f start value).PerformsThere here (g start value)) (start : β) :
    (values.foldlM f start).PerformsThere here (values.foldlM g start) := by
  induction values generalizing start with
  | nil => exact performsThere_pure start
  | cons value rest ih =>
    rw [List.foldlM_cons, List.foldlM_cons]
    exact (h start value).bind (ih _)

theorem performsThere_surroundings {next : Surroundings → Working α} {noted : Noted α}
    (h : (next here).PerformsThere here noted) : (surroundings >>= next).PerformsThere here noted :=
  ⟨performs_surroundings h.performs, h.located_eq⟩

/-! ## Types -/

theorem performsThere_refer (location : Option Location) :
    (refer location).PerformsThere here (Noted.refer location) := by
  refine ⟨fun session _ => ?_, rfl⟩
  cases location with
  | none => rfl
  | some location => rfl

theorem run_forM_refer (references : List Location) (session : Session) :
    (references.forM (refer ∘ some)).run session =
      ((), references.foldl (fun session location => session.noteReference (some location)) session) := by
  induction references generalizing session with
  | nil => rfl
  | cons location rest ih => exact ih (session.noteReference (some location))

theorem performsThere_ask (question : Lookup → Resolving α) :
    (ask question).PerformsThere here (Noted.ofResolving (question here.lookup)) := by
  refine performsThere_surroundings ⟨fun session _ => ?_, rfl⟩
  exact congrArg (Prod.mk (question here.lookup).answer ·.2)
    (run_forM_refer (question here.lookup).references session)

theorem performsThere_type (hint : Option String) (handle : TypeHandle) :
    (type hint handle).PerformsThere here (here.type hint handle) :=
  performsThere_ask (handle.reduce · hint)

theorem performsThere_memberType (hint : Option String) (handle : TypeHandle) :
    (memberType hint handle).PerformsThere here (here.memberType hint handle) :=
  performsThere_ask (handle.reduceMember · hint)

theorem performsThere_signature (callable : Callable) :
    (signature callable).PerformsThere here (here.signature callable) :=
  performsThere_ask callable.reduceSignature

/-! ## Blocks -/

/-- A block that is registered as soon as it is met is taken over behind those inside it. -/
theorem PerformsThere.collect {work : Working (Option Block)} {noted : Noted (Option Block)}
    (h : work.PerformsThere here noted) : (collect work).PerformsThere here noted.collect := by
  refine ⟨fun session hsession => ?_, h.located_eq⟩
  have hrun : (Working.collect work).run session =
      (do
        (work.run session).1.forM fun block => modify (·.register (.block block))
        pure (work.run session).1 : Working (Option Block)).run (work.run session).2 := rfl
  have habsorb : session.absorb noted.collect =
      noted.value.toList.foldl (fun session block => session.register (.block block)) (session.absorb noted) :=
    List.foldl_append
  rw [hrun, h.performs session hsession, habsorb]
  cases noted with
  | mk value located references blocks => cases value <;> rfl

theorem performsThere_blockReturn (result : Option TypeHandle) :
    (blockReturn result).PerformsThere here (here.blockReturn result) := by
  cases result with
  | none => exact performsThere_pure _
  | some result => exact performsThere_type none result

/-- A block is made of what it returns, what it takes and its signature, each described behind the others. -/
theorem performsThere_call (spelling : String) (function : TypeHandle) (variadic : Bool) (result : Option TypeHandle)
    {arguments : Working (List Argument)} {described : Noted (List Argument)}
    (h : arguments.PerformsThere here described) :
    (do
      let here ← surroundings
      let returns ← blockReturn result
      let arguments ← arguments
      let encoding ← signature ⟨.block, spelling, function⟩
      pure
        { heading := ⟨spelling, .block, here.source, none⟩
          signature := spelling
          returns
          arguments
          encoding
          variadic } :
        Working Block).PerformsThere here
      (do
        let returns ← here.blockReturn result
        let arguments ← described
        let encoding ← here.signature ⟨.block, spelling, function⟩
        pure
          { heading := ⟨spelling, .block, here.source, none⟩
            signature := spelling
            returns
            arguments
            encoding
            variadic }) :=
  performsThere_surroundings <| (performsThere_blockReturn result).bind <|
    h.bind ((performsThere_signature _).bind (performsThere_pure _))

mutual

/-- Blocks are described in place however deep they are nested. -/
theorem performsThere_block? : ∀ handle : TypeHandle, (block? handle).PerformsThere here (here.block? handle)
  | { kind, spelling, pointee, canonical, .. } => by
    unfold block? Surroundings.block?
    cases kind with
    | sugar sugar =>
      cases canonical with
      | some target => exact performsThere_block? target
      | none => exact performsThere_pure _
    | blockPointer =>
      cases pointee with
      | none => exact performsThere_surroundings (performsThere_pure _)
      | some function => exact (performsThere_blockOf spelling function).bind (performsThere_pure _)
    | _ => exact performsThere_pure _

theorem performsThere_blockOf (spelling : String) :
    ∀ handle : TypeHandle, (blockOf spelling handle).PerformsThere here (here.blockOf spelling handle)
  | { kind, canonical, result, arguments, variadic, .. } => by
    have hcall (function : TypeHandle) :=
      performsThere_call spelling function variadic result (performsThere_blockArguments arguments)
    unfold blockOf Surroundings.blockOf
    cases kind with
    | sugar sugar =>
      cases canonical with
      | some function => exact performsThere_blockOf spelling function
      | none => exact hcall _
    | _ => exact hcall _

theorem performsThere_blockArguments : ∀ arguments : List TypeHandle,
    (blockArguments arguments).PerformsThere here (here.blockArguments arguments)
  | [] => by
    unfold blockArguments Surroundings.blockArguments
    exact performsThere_pure _
  | argument :: rest => by
    unfold blockArguments Surroundings.blockArguments
    exact (performsThere_type none argument).bind <| (performsThere_block? argument).collect.bind <|
      (performsThere_blockArguments rest).bind (performsThere_pure _)

end

theorem performsThere_collectBlock? (handle : TypeHandle) :
    (collect (block? handle)).PerformsThere here (here.collectBlock? handle) :=
  (performsThere_block? handle).collect

/-! ## Members, arguments and returned values -/

theorem performsThere_declaredType (hint : Option String) (handle : Option TypeHandle) :
    (declaredType hint handle).PerformsThere here (here.declaredType hint handle) := by
  cases handle with
  | none => exact performsThere_pure _
  | some handle =>
    exact (performsThere_type hint handle).bind ((performsThere_collectBlock? handle).bind (performsThere_pure _))

theorem performsThere_argument (hint : Option String) (node : Node) :
    (argument hint node).PerformsThere here (here.argument hint node) :=
  (performsThere_declaredType hint node.type).bind (performsThere_pure _)

theorem performsThere_arguments (hints : List String) (node : Node) :
    (arguments hints node).PerformsThere here (here.arguments hints node) :=
  performsThere_mapM fun pair _ => performsThere_argument hints[pair.2]? pair.1

theorem performsThere_returned (hint : Option String) (handle : TypeHandle) :
    (returned hint handle).PerformsThere here (here.returned hint handle) :=
  (performsThere_type hint handle).bind ((performsThere_collectBlock? handle).bind (performsThere_pure _))

theorem performsThere_method (owner : String) (node : Node) :
    (method owner node).PerformsThere here (here.method owner node) := by
  unfold method Surroundings.method methodReturn
  dsimp only
  cases node.resultType with
  | some handle =>
    exact (performsThere_returned _ handle).bind ((performsThere_arguments _ node).bind (performsThere_pure _))
  | none =>
    cases (Encoding.returned? (node.encoding.getD "").toList).map String.ofList with
    | some hint => exact (performsThere_pure _).bind ((performsThere_arguments _ node).bind (performsThere_pure _))
    | none => exact (performsThere_pure _).bind ((performsThere_arguments _ node).bind (performsThere_pure _))

theorem performsThere_property (node : Node) : (property node).PerformsThere here (here.property node) :=
  (performsThere_declaredType node.encoding node.type).bind (performsThere_pure _)

theorem performsThere_ivar (node : Node) : (ivar node).PerformsThere here (here.ivar node) :=
  (performsThere_declaredType node.encoding node.type).bind (performsThere_pure _)

/-! ## Classes, categories and protocols -/

/-- A member counts if it applies where the session is. -/
theorem performsThere_available {child : Node} {entry : ClassEntry} {work : Working ClassEntry}
    {noted : Noted ClassEntry} (h : work.PerformsThere here noted) :
    (do
      let here ← surroundings
      if child.isAvailable here.settings.minVersion then work else pure entry :
        Working ClassEntry).PerformsThere here
      (if child.isAvailable here.settings.minVersion then noted else pure entry) := by
  refine performsThere_surroundings ?_
  split
  · exact h
  · exact performsThere_pure entry

theorem performsThere_withChild (entry : ClassEntry) (child : Node) :
    (withChild entry child).PerformsThere here (here.withChild entry child) := by
  unfold withChild Surroundings.withChild
  cases child.kind with
  | superclassRef | protocolRef => exact (performsThere_refer child.referenced).bind (performsThere_pure _)
  | instanceMethod | classMethod =>
    exact performsThere_available ((performsThere_method entry.heading.name child).bind (performsThere_pure _))
  | property => exact performsThere_available ((performsThere_property child).bind (performsThere_pure _))
  | ivar => exact performsThere_available ((performsThere_ivar child).bind (performsThere_pure _))
  | _ => exact performsThere_available (performsThere_pure _)

theorem performsThere_withChildren (entry : ClassEntry) (node : Node) :
    (node.children.foldlM withChild entry).PerformsThere here (here.withChildren entry node) :=
  performsThere_foldlM performsThere_withChild entry

theorem performs_interface (node : Node) : (withMembers .class_ node).Performs here (here.interface node) :=
  performs_enter (performsThere_withChildren _ node).performs

theorem performs_protocol (node : Node) : (withMembers .protocol node).Performs here (here.protocol node) :=
  performs_enter (performsThere_withChildren _ node).performs

theorem performs_category? (node : Node) : (category? node).Performs here (here.category? node) := by
  unfold category? Surroundings.category?
  cases Surroundings.extendedClass? node with
  | none => exact performs_pure none
  | some extended =>
    refine (performsThere_refer extended.referenced).andThen (performs_enter ?_)
    exact (performsThere_withChildren _ node).andThen (performs_pure _)

/-! ## The other declarations -/

theorem performsThere_field (node : Node) : (field node).PerformsThere here (here.field node) := by
  unfold field Surroundings.field
  cases node.type with
  | none => exact (performsThere_pure _).bind (performsThere_pure _)
  | some handle => exact (performsThere_memberType node.encoding handle).bind (performsThere_pure _)

theorem performs_record (kind : RecordKind) (node : Node) : (record kind node).Performs here (here.record kind node) :=
  performs_enter ((performsThere_mapM fun child _ => performsThere_field child).andThen (performs_pure _))

theorem performsThere_integerType (node : Node) : (integerType node).PerformsThere here (here.integerType node) := by
  unfold integerType Surroundings.integerType
  cases node.type with
  | none => exact performsThere_pure _
  | some handle => exact performsThere_type node.encoding handle

theorem performs_enum (node : Node) : (enum node).Performs here (here.enum node) :=
  performs_enter ((performsThere_integerType node).andThen (performs_surroundings (performs_pure _)))

/-- Where the session was before a constant does not matter: every constant is described at its own place. -/
theorem performs_constants (type : ResolvedType) (constants : List Node) (here : Surroundings) :
    (constants.mapM fun constant => do
      let heading ← enter .global constant.name constant
      pure { heading, type } : Working (List GlobalEntry)).Performs here
      (constants.mapM fun constant => do
        let here ← here.enter constant
        pure { heading := here.heading .global constant.name constant, type }) := by
  induction constants generalizing here with
  | nil => exact performs_pure []
  | cons constant rest ih =>
    rw [List.mapM_cons, List.mapM_cons]
    refine (performs_enter (performs_pure _)).bind ?_
    exact (ih { here with source := here.settings.classify constant.location }).bind (performs_pure _)

theorem performs_anonymousConstants (node : Node) :
    (anonymousConstants node).Performs here (here.anonymousConstants node) :=
  (performsThere_integerType node).andThen (performs_surroundings (performs_constants _ _ here))

theorem performs_global (node : Node) : (global node).Performs here (here.global node) :=
  performs_enter ((performsThere_declaredType node.encoding node.type).andThen (performs_pure _))

theorem performs_function (node : Node) : (function node).Performs here (here.function node) := by
  unfold function Surroundings.function
  refine performs_enter ?_
  dsimp only
  cases node.resultType.or ((node.type.map (·.desugared)).bind (·.result)) with
  | some handle =>
    exact (performsThere_returned none handle).andThen ((performsThere_arguments [] node).andThen (performs_pure _))
  | none => exact (performsThere_pure _).andThen ((performsThere_arguments [] node).andThen (performs_pure _))

theorem performs_synonym (node : Node) : (synonym node).Performs here (here.synonym node) :=
  performs_enter ((performsThere_declaredType node.encoding node.type).andThen (performs_pure _))

/-- **Describing in place** yields what describing yields, and leaves the session behind that takes over the notes,
whatever is described and whichever way. -/
theorem performs_build (node : Node) (kind : DescriptionKind) :
    (build node kind).Performs here (here.build node kind) := by
  cases kind with
  | interface => exact (performs_interface node).map _
  | protocol => exact (performs_protocol node).map _
  | category => exact (performs_category? node).map _
  | record kind => exact (performs_record kind node).map _
  | enum => exact (performs_enum node).map _
  | constants => exact (performs_anonymousConstants node).map _
  | global => exact (performs_global node).map _
  | function => exact (performs_function node).map _
  | synonym => exact (performs_synonym node).map _

end Working

end HeaderCatalog
