import HeaderCatalog.Proofs.Resolution.Stateless

set_option autoImplicit false

/-!
# What a resolver carries from one question to the next

A resolver changes while it works: it opens records and closes them again, and it notes references.  `Yields` says what
is left of that when a question has been answered: the records that were open before are open again, in the same
order, and the references are those from before with some behind them.  Every step of resolution yields what its
counterpart without state says (`yields_reduceIn`), so a resolver between two questions has no record open, and what it
answers does not depend on what it was asked before.
-/

namespace HeaderCatalog

namespace Resolving

variable {α β : Type} {visiting : List RecordKey}

/-- While certain records are open, a question has an answer, refers to certain declarations, and leaves the same
records open. -/
def Yields (question : Resolving α) (visiting : List RecordKey) (answer : α) (found : List Location) : Prop :=
  ∀ noted, question.run ⟨visiting, noted⟩ = (answer, ⟨visiting, noted ++ found⟩)

theorem yields_pure (answer : α) : Yields (pure answer) visiting answer [] := by
  intro noted
  rw [List.append_nil]
  rfl

theorem Yields.bind {question : Resolving α} {next : α → Resolving β} {answer : α} {last : β}
    {first second : List Location} (h : question.Yields visiting answer first)
    (hnext : (next answer).Yields visiting last second) :
    (question >>= next).Yields visiting last (first ++ second) := by
  intro noted
  have hrun : (question >>= next).run ⟨visiting, noted⟩ =
      (next (question.run ⟨visiting, noted⟩).1).run (question.run ⟨visiting, noted⟩).2 := rfl
  rw [hrun, h noted, hnext (noted ++ first), List.append_assoc]

/-- What is made of an answer adds no references. -/
theorem Yields.andThen {question : Resolving α} {f : α → β} {answer : α} {found : List Location}
    (h : question.Yields visiting answer found) :
    (question >>= fun a => pure (f a)).Yields visiting (f answer) found := by
  have hbind : (question >>= fun a => pure (f a)).Yields visiting (f answer) (found ++ []) :=
    h.bind (yields_pure (f answer))
  rwa [List.append_nil] at hbind

theorem Yields.answer_eq {question : Resolving α} {answer : α} {found : List Location}
    (h : question.Yields [] answer found) : question.answer = answer :=
  congrArg Prod.fst (h [])

theorem Yields.references_eq {question : Resolving α} {answer : α} {found : List Location}
    (h : question.Yields [] answer found) : question.references = found :=
  congrArg (fun result => result.2.references) (h [])

theorem Yields.signature {returned taken : Resolving Encoding} {first second : Encoding}
    {firstFound secondFound : List Location} (mark : Encoding) (hreturned : returned.Yields visiting first firstFound)
    (htaken : taken.Yields visiting second secondFound) :
    (do
      let returned ← returned
      let taken ← taken
      pure (returned ++ mark ++ taken) : Resolving Encoding).Yields visiting (first ++ mark ++ second)
      (firstFound ++ secondFound) :=
  hreturned.bind htaken.andThen

theorem yields_note (declaration : Option Location) :
    Yields (modify (Resolver.note declaration)) visiting PUnit.unit declaration.toList := fun _ => rfl

/-- A record that is opened for its members is closed behind them. -/
theorem yields_reduceRecord {lookup : Lookup} {scope : Scope} {key : RecordKey} {fields : List FieldHandle}
    (h : (TypeHandle.reduceMembers lookup fields).Yields (key :: visiting)
      (TypeHandle.memberEncodings lookup (key :: visiting) fields)
      (TypeHandle.memberReferences (key :: visiting) fields)) :
    (lookup.reduceRecord scope key
      (if fields.isEmpty then none else some (TypeHandle.reduceMembers lookup fields))).Yields visiting
      (lookup.recordEncoding visiting scope key
        (if fields.isEmpty then none else some fun visiting => TypeHandle.memberEncodings lookup visiting fields))
      (openedReferences visiting scope key fun visiting => TypeHandle.memberReferences visiting fields) := by
  intro noted
  unfold Lookup.recordEncoding openedReferences Lookup.reduceRecord
  rw [StateT.run_bind, StateT.run_get]
  simp only [pure_bind]
  by_cases hopens : (scope.opensRecords && !visiting.contains key) = true
  · rw [if_pos hopens, if_pos hopens, if_pos hopens]
    cases fields with
    | nil =>
      rw [TypeHandle.memberReferences, List.append_nil]
      rfl
    | cons field rest =>
      have hrun : ∀ members : Resolving (List Encoding),
          StateT.run (do
            modify (Resolver.enter key)
            let encodings ← members
            modify (Resolver.leave key)
            pure (Encoding.record key.kind key.name (some encodings))) ⟨visiting, noted⟩ =
          (Encoding.record key.kind key.name (some (members.run ⟨key :: visiting, noted⟩).1),
            (members.run ⟨key :: visiting, noted⟩).2.leave key) := fun _ => rfl
      rw [if_neg (by simp), if_neg (by simp)]
      dsimp only
      -- The members leave the record itself open, as the first one.
      rw [hrun, h noted, Resolver.leave, List.erase_cons_head]
  · rw [if_neg hopens, if_neg hopens, if_neg hopens, List.append_nil]
    rfl

end Resolving

namespace TypeHandle

open Resolving

mutual

/-- Resolving a handle yields what the handle says by itself. -/
theorem yields_reduceIn (lookup : Lookup) (visiting : List RecordKey) (scope : Scope) (hint : Option String) :
    ∀ handle : TypeHandle, (handle.reduceIn lookup scope hint).Yields visiting
      (handle.resolveIn lookup visiting scope hint) (handle.referencesIn visiting scope hint)
  | { kind, spelling, pointee, canonical, fields, element, size, declaration, .. } => by
    unfold reduceIn resolveIn referencesIn
    -- The place of the type itself is noted first, whatever kind it is.
    refine (yields_note declaration).bind ?_
    cases kind with
    | pointer =>
      cases pointee with
      | none => exact yields_reduceRest lookup visiting scope hint spelling canonical
      | some target =>
        dsimp only
        by_cases hchar : target.desugared.kind.isChar = true
        · rw [if_pos hchar, if_pos hchar, if_pos hchar]
          exact yields_pure _
        rw [if_neg hchar, if_neg hchar, if_neg hchar]
        by_cases hfunction : target.desugared.kind.isFunction = true
        · rw [if_pos hfunction, if_pos hfunction, if_pos hfunction]
          exact (yields_reduceSignature lookup visiting .functionPointer target).andThen
        · rw [if_neg hfunction, if_neg hfunction, if_neg hfunction]
          exact (yields_reduceIn lookup visiting scope.behindPointer none target).andThen
    | blockPointer =>
      cases pointee with
      | none => exact yields_pure _
      | some function => exact (yields_reduceSignature lookup visiting .block function).andThen
    | objcObjectPointer =>
      exact (yields_note (pointee.bind (·.declaration))).andThen
    | record kind => exact (yields_reduceRecord (yields_reduceMembers lookup _ fields)).andThen
    | enum =>
      cases canonical with
      | none => exact yields_pure _
      | some integer => exact (yields_reduceIn lookup visiting scope none integer).andThen
    | sugar sugar =>
      cases canonical with
      | some target =>
        dsimp only
        cases target.unnamedRecord? with
        | some kind => exact (yields_reduceUnnamed lookup visiting scope _ target).andThen
        | none => exact (yields_reduceIn lookup visiting scope hint target).andThen
      | none =>
        cases sugar with
        | synonym =>
          dsimp only
          cases lookup.synonym? (Naming.ofRecord spelling) with
          | some type => exact yields_pure _
          | none => exact yields_reduceRest lookup visiting scope hint spelling none
        | elaborated =>
          dsimp only
          cases Naming.elaboratedRecord? spelling with
          | some kind => exact (yields_reduceRecord (yields_reduceMembers lookup _ fields)).andThen
          | none => exact yields_reduceRest lookup visiting scope hint spelling none
        | attributed => exact yields_reduceRest lookup visiting scope hint spelling none
    | constantArray =>
      cases element with
      | none => exact yields_reduceRest lookup visiting scope hint spelling canonical
      | some element => exact (yields_reduceIn lookup visiting scope none element).andThen
    | incompleteArray =>
      cases element with
      | none => exact yields_reduceRest lookup visiting scope hint spelling canonical
      | some element => exact (yields_reduceIn lookup visiting scope.behindPointer none element).andThen
    | vector | unexposed | dependent | invalid | other _ =>
      exact yields_reduceRest lookup visiting scope hint spelling canonical
    | scalar _ | objcId | objcClass | objcSelector | objcInterface | objcObject | objcTypeParam | function _ =>
      exact yields_pure _

theorem yields_reduceRest (lookup : Lookup) (visiting : List RecordKey) (scope : Scope) (hint : Option String)
    (spelling : String) : ∀ canonical : Option TypeHandle,
      (reduceRest lookup scope hint spelling canonical).Yields visiting
        (resolveRest lookup visiting scope hint spelling canonical) (referencesRest visiting scope hint canonical)
  | none => by
    unfold reduceRest resolveRest referencesRest
    cases usableHint? hint <;> exact yields_pure _
  | some canonical => by
    unfold reduceRest resolveRest referencesRest
    cases usableHint? hint with
    | some hint => exact yields_pure _
    | none => exact (yields_reduceIn lookup visiting scope none canonical).andThen

theorem yields_reduceUnnamed (lookup : Lookup) (visiting : List RecordKey) (scope : Scope) (key : RecordKey) :
    ∀ handle : TypeHandle, (handle.reduceUnnamed lookup scope key).Yields visiting
      (handle.recordIn lookup visiting scope key) (handle.recordReferencesIn visiting scope key)
  | { fields, .. } => by
    unfold reduceUnnamed recordIn recordReferencesIn
    exact yields_reduceRecord (yields_reduceMembers lookup _ fields)

theorem yields_reduceSignature (lookup : Lookup) (visiting : List RecordKey) (callable : CallableKind) :
    ∀ handle : TypeHandle, (handle.reduceSignature lookup callable).Yields visiting
      (handle.signatureIn lookup visiting callable) (handle.signatureReferencesIn visiting)
  | { kind, canonical, result, arguments, .. } => by
    have hcall := Yields.signature (if callable = .block then ['@', '?'] else [])
      (yields_reduceReturned lookup visiting result) (yields_reduceArguments lookup visiting arguments)
    unfold reduceSignature signatureIn signatureReferencesIn
    cases kind with
    | sugar sugar =>
      cases canonical with
      | some function => exact yields_reduceSignature lookup visiting callable function
      | none => exact hcall
    | _ => exact hcall

theorem yields_reduceReturned (lookup : Lookup) (visiting : List RecordKey) : ∀ result : Option TypeHandle,
    (reduceReturned lookup result).Yields visiting (returnedEncoding lookup visiting result)
      (returnedReferences visiting result)
  | none => by
    unfold reduceReturned returnedEncoding returnedReferences
    exact yields_pure _
  | some result => by
    unfold reduceReturned returnedEncoding returnedReferences
    exact (yields_reduceIn lookup visiting .outer none result).andThen

theorem yields_reduceArguments (lookup : Lookup) (visiting : List RecordKey) : ∀ arguments : List TypeHandle,
    (reduceArguments lookup arguments).Yields visiting (argumentEncodings lookup visiting arguments)
      (argumentReferences visiting arguments)
  | [] => by
    unfold reduceArguments argumentEncodings argumentReferences
    exact yields_pure _
  | argument :: rest => by
    unfold reduceArguments argumentEncodings argumentReferences
    exact (yields_reduceIn lookup visiting .outer none argument).bind
      (yields_reduceArguments lookup visiting rest).andThen

theorem yields_reduceMembers (lookup : Lookup) (visiting : List RecordKey) : ∀ fields : List FieldHandle,
    (reduceMembers lookup fields).Yields visiting (memberEncodings lookup visiting fields)
      (memberReferences visiting fields)
  | [] => by
    unfold reduceMembers memberEncodings memberReferences
    exact yields_pure _
  | { type, .. } :: rest => by
    unfold reduceMembers memberEncodings memberReferences
    exact (yields_reduceIn lookup visiting .field none type).bind (yields_reduceMembers lookup visiting rest).andThen

end

theorem resolve_eq (lookup : Lookup) (hint : Option String) (handle : TypeHandle) :
    handle.resolve lookup hint = handle.resolveIn lookup [] .outer hint :=
  (handle.yields_reduceIn lookup [] .outer hint).answer_eq

theorem resolveMember_eq (lookup : Lookup) (hint : Option String) (handle : TypeHandle) :
    handle.resolveMember lookup hint = handle.resolveIn lookup [] .field hint :=
  (handle.yields_reduceIn lookup [] .field hint).answer_eq

/-- What a declaration refers to does not depend on what is known. -/
theorem references_reduce (lookup : Lookup) (hint : Option String) (handle : TypeHandle) :
    (handle.reduce lookup hint).references = handle.references hint := by
  have hknown := handle.yields_reduceIn lookup [] .outer hint
  have hunknown := handle.yields_reduceIn .empty [] .outer hint
  exact hknown.references_eq.trans hunknown.references_eq.symm

theorem references_reduceMember (lookup : Lookup) (hint : Option String) (handle : TypeHandle) :
    (handle.reduceMember lookup hint).references = handle.memberTypeReferences hint := by
  have hknown := handle.yields_reduceIn lookup [] .field hint
  have hunknown := handle.yields_reduceIn .empty [] .field hint
  exact hknown.references_eq.trans hunknown.references_eq.symm

theorem references_eq (hint : Option String) (handle : TypeHandle) :
    handle.references hint = handle.referencesIn [] .outer hint :=
  (handle.yields_reduceIn .empty [] .outer hint).references_eq

theorem memberTypeReferences_eq (hint : Option String) (handle : TypeHandle) :
    handle.memberTypeReferences hint = handle.referencesIn [] .field hint :=
  (handle.yields_reduceIn .empty [] .field hint).references_eq

theorem argumentEncodings_eq_flatMap (lookup : Lookup) (visiting : List RecordKey) (arguments : List TypeHandle) :
    argumentEncodings lookup visiting arguments =
      arguments.flatMap fun argument => Encoding.erase (argument.resolveIn lookup visiting .outer none).encoding := by
  induction arguments with
  | nil => rfl
  | cons argument rest ih => rw [argumentEncodings, ih, List.flatMap_cons]

end TypeHandle

/-- The signature of a call is made of what it returns and what it takes, each resolved by itself. -/
theorem Callable.yields_reduceSignature (lookup : Lookup) (visiting : List RecordKey) (callable : Callable) :
    (callable.reduceSignature lookup).Yields visiting
      (TypeHandle.returnedEncoding lookup visiting callable.result ++
        (if callable.kind = .block then ['@', '?'] else []) ++
          TypeHandle.argumentEncodings lookup visiting callable.arguments)
      (TypeHandle.returnedReferences visiting callable.result ++
        TypeHandle.argumentReferences visiting callable.arguments) :=
  .signature _ (TypeHandle.yields_reduceReturned lookup visiting callable.result)
    (TypeHandle.yields_reduceArguments lookup visiting callable.arguments)

theorem Callable.signature_eq (lookup : Lookup) (callable : Callable) : callable.signature lookup =
    TypeHandle.returnedEncoding lookup [] callable.result ++ (if callable.kind = .block then ['@', '?'] else []) ++
      TypeHandle.argumentEncodings lookup [] callable.arguments :=
  (callable.yields_reduceSignature lookup []).answer_eq

theorem Callable.signatureReferences_eq (callable : Callable) : callable.signatureReferences =
    TypeHandle.returnedReferences [] callable.result ++ TypeHandle.argumentReferences [] callable.arguments :=
  (callable.yields_reduceSignature .empty []).references_eq

theorem Callable.references_reduceSignature (lookup : Lookup) (callable : Callable) :
    (callable.reduceSignature lookup).references = callable.signatureReferences := by
  have hknown := callable.yields_reduceSignature lookup []
  have hunknown := callable.yields_reduceSignature .empty []
  exact hknown.references_eq.trans hunknown.references_eq.symm

/-! ## Sequences of questions -/

/-- A question that a resolver can be asked. -/
inductive Question where
  | type (hint : Option String) (handle : TypeHandle)
  | memberType (hint : Option String) (handle : TypeHandle)
  | signature (callable : Callable)

/-- An answer that a resolver can give. -/
inductive Reply where
  | type (type : ResolvedType)
  | signature (encoding : Encoding)

namespace Question

/-- Asks a resolver. -/
def ask (lookup : Lookup) : Question → Resolving Reply
  | type hint handle => do
    let type ← handle.reduce lookup hint
    pure (.type type)
  | memberType hint handle => do
    let type ← handle.reduceMember lookup hint
    pure (.type type)
  | signature callable => do
    let encoding ← callable.reduceSignature lookup
    pure (.signature encoding)

/-- Every question has an answer and references of its own, and leaves the open records as they were. -/
theorem exists_yields (lookup : Lookup) (visiting : List RecordKey) (question : Question) :
    ∃ reply found, (question.ask lookup).Yields visiting reply found := by
  cases question with
  | type hint handle => exact ⟨_, _, (handle.yields_reduceIn lookup visiting .outer hint).andThen⟩
  | memberType hint handle => exact ⟨_, _, (handle.yields_reduceIn lookup visiting .field hint).andThen⟩
  | signature callable => exact ⟨_, _, (callable.yields_reduceSignature lookup visiting).andThen⟩

/-- With no record open, the answer and the references are those of a new resolver. -/
theorem yields_ask (lookup : Lookup) (question : Question) :
    (question.ask lookup).Yields [] (question.ask lookup).answer (question.ask lookup).references := by
  obtain ⟨reply, found, h⟩ := question.exists_yields lookup []
  rwa [h.answer_eq, h.references_eq]

theorem yields_mapM_ask (lookup : Lookup) (questions : List Question) :
    (questions.mapM (ask lookup)).Yields [] (questions.map fun question => (question.ask lookup).answer)
      (questions.flatMap fun question => (question.ask lookup).references) := by
  induction questions with
  | nil => exact Resolving.yields_pure []
  | cons question rest ih =>
    rw [List.mapM_cons, List.map_cons, List.flatMap_cons]
    exact (question.yields_ask lookup).bind ih.andThen

end Question

/-- A resolver after a sequence of questions. -/
def Resolver.after (lookup : Lookup) (asked : List Question) : Resolver :=
  ((asked.mapM (Question.ask lookup)).run .fresh).2

/-- **A resolver answers every time as if it were new.**  Whatever it has been asked, the replies are those of new
resolvers, no record is open, and the references are those of new resolvers one after the other; the next question is
answered as by a new resolver, and once more if it is asked again. -/
theorem Resolver.ask_after (lookup : Lookup) (asked : List Question) (next : Question) :
    (asked.mapM (Question.ask lookup)).answer = (asked.map fun question => (question.ask lookup).answer) ∧
    (after lookup asked).visiting = [] ∧
    (after lookup asked).references = (asked.flatMap fun question => (question.ask lookup).references) ∧
    ((next.ask lookup).run (after lookup asked)).1 = (next.ask lookup).answer ∧
    ((next.ask lookup).run (after lookup (asked ++ [next]))).1 = ((next.ask lookup).run (after lookup asked)).1 := by
  have hrun : ∀ questions : List Question, (questions.mapM (Question.ask lookup)).run .fresh =
      (questions.map fun question => (question.ask lookup).answer,
        ⟨[], questions.flatMap fun question => (question.ask lookup).references⟩) :=
    fun questions => Question.yields_mapM_ask lookup questions []
  have hnext : ∀ questions, ((next.ask lookup).run (after lookup questions)).1 = (next.ask lookup).answer := by
    intro questions
    rw [after, hrun, next.yields_ask lookup]
  have hanswer := congrArg Prod.fst (hrun asked)
  have hafter := congrArg Prod.snd (hrun asked)
  exact ⟨hanswer, congrArg visiting hafter, congrArg references hafter, hnext asked,
    (hnext (asked ++ [next])).trans (hnext asked).symm⟩

end HeaderCatalog
