import HeaderCatalog.Handle.Build
import HeaderCatalog.Proofs.Resolution.Resolver
import Mathlib.Logic.Relation

set_option autoImplicit false

/-!
# The way down a handle

Sugar stands for a handle and a pointer points to one.  Going down from handle to handle like this, a resolver notes
where each of them is declared, so that the framework of a named type becomes a dependency.  It stops in three places:
a pointer to a character is written without a look at what it points to, a pointer to a function goes on with the
signature, and sugar over an unnamed record goes on with the fields.  The handles further down are then passed over,
and so is the place where they are declared (`references_of_reaches`, `not_all_reached_noted`).
-/

namespace HeaderCatalog

namespace TypeHandle

/-- The next handle on the way down: what sugar stands for, or what a pointer points to. -/
def next? : TypeHandle → Option TypeHandle
  | { kind := .sugar _, canonical, .. } => canonical
  | { kind := .pointer, pointee, .. } => pointee
  | _ => none

/-- The second handle is on the way down from the first. -/
def Reaches : TypeHandle → TypeHandle → Prop := Relation.ReflTransGen fun handle next => handle.next? = some next

end TypeHandle

/-! ## Layers -/

/-- One handle on the way to another, with a hole where the next one is. -/
inductive Layer where
  | sugar (kind : Sugar) (shell : TypeHandle)
  | pointer (shell : TypeHandle)

namespace Layer

/-- The layer with a handle in its hole. -/
def around (target : TypeHandle) : Layer → TypeHandle
  | sugar kind shell => { shell with kind := .sugar kind, canonical := some target }
  | pointer shell => { shell with kind := .pointer, pointee := some target }

/-- Whether resolving goes through the layer to the handle in its hole. -/
def passes (target : TypeHandle) : Layer → Bool
  | sugar _ _ => target.unnamedRecord?.isNone
  | pointer _ => !target.desugared.kind.isChar && !target.desugared.kind.isFunction

end Layer

/-- The layers over a handle, the outermost first. -/
abbrev Way := List Layer

namespace Way

/-- The handle from which a way leads down to another one. -/
def above (target : TypeHandle) : Way → TypeHandle
  | [] => target
  | layer :: rest => layer.around (above target rest)

/-- Whether resolving goes through every layer of a way. -/
def isOpen (target : TypeHandle) : Way → Bool
  | [] => true
  | layer :: rest => layer.passes (above target rest) && isOpen target rest

end Way

theorem TypeHandle.exists_layer {handle next : TypeHandle} (hnext : handle.next? = some next) :
    ∃ layer : Layer, handle = layer.around next := by
  unfold next? at hnext
  split at hnext
  case h_1 sugar spelling pointee canonical result arguments fields element size variadic declaration =>
    obtain rfl : canonical = some next := hnext
    exact ⟨.sugar sugar ⟨.sugar sugar, spelling, pointee, some next, result, arguments, fields, element, size, variadic,
      declaration⟩, rfl⟩
  case h_2 spelling pointee canonical result arguments fields element size variadic declaration =>
    obtain rfl : pointee = some next := hnext
    exact ⟨.pointer ⟨.pointer, spelling, some next, canonical, result, arguments, fields, element, size, variadic,
      declaration⟩, rfl⟩
  case h_3 => cases hnext

theorem TypeHandle.Reaches.exists_way {handle target : TypeHandle} (hreaches : handle.Reaches target) :
    ∃ way : Way, handle = way.above target := by
  induction hreaches using Relation.ReflTransGen.head_induction_on with
  | refl => exact ⟨[], rfl⟩
  | head hnext _ ih =>
    obtain ⟨way, rfl⟩ := ih
    obtain ⟨layer, hlayer⟩ := exists_layer hnext
    exact ⟨layer :: way, hlayer⟩

/-! ## What a layer contributes -/

namespace Layer

variable (visiting : List RecordKey) (scope : Scope) (hint : Option String) (target : TypeHandle)

/-- The place where the next handle is resolved. -/
def scopeBelow : Layer → Scope
  | sugar _ _ => scope
  | pointer _ => scope.behindPointer

/-- The hint that the next handle is resolved with. -/
def hintBelow : Layer → Option String
  | sugar _ _ => hint
  | pointer _ => none

/-- The place where the handle of a layer is declared. -/
def declaration : Layer → Option Location
  | sugar _ shell | pointer shell => shell.declaration

/-- A layer that is gone through contributes its own place, and the rest comes from the next handle. -/
theorem references_of_passes {layer : Layer} (hpasses : layer.passes target) :
    (layer.around target).referencesIn visiting scope hint =
      layer.declaration.toList ++ target.referencesIn visiting (layer.scopeBelow scope) (layer.hintBelow hint) := by
  cases layer with
  | sugar kind shell =>
    have hnamed : target.unnamedRecord? = none := Option.isNone_iff_eq_none.1 hpasses
    simp only [around, TypeHandle.referencesIn, hnamed]
    rfl
  | pointer shell =>
    obtain ⟨hchar, hfunction⟩ : target.desugared.kind.isChar = false ∧ target.desugared.kind.isFunction = false := by
      simpa [passes] using hpasses
    simp only [around, TypeHandle.referencesIn, hchar, hfunction]
    rfl

end Layer

/-- On an open way the place where the handle at its end is declared is noted. -/
theorem Way.declaration_mem_references {target : TypeHandle} {location : Location}
    (hdeclared : target.declaration = some location) (visiting : List RecordKey) :
    ∀ (way : Way) (scope : Scope) (hint : Option String), way.isOpen target →
      location ∈ (way.above target).referencesIn visiting scope hint
  | [], scope, hint, _ => by
    obtain ⟨kind, spelling, pointee, canonical, result, arguments, fields, element, size, variadic, declaration⟩ :=
      target
    obtain rfl : declaration = some location := hdeclared
    rw [above, TypeHandle.referencesIn.eq_def]
    exact List.mem_append_left _ List.mem_cons_self
  | layer :: rest, scope, hint, hopen => by
    obtain ⟨hpasses, hrest⟩ := Bool.and_eq_true_iff.1 hopen
    rw [above, layer.references_of_passes visiting scope hint _ hpasses]
    exact List.mem_append_right _ (declaration_mem_references hdeclared visiting rest _ _ hrest)

/-! ## Where another handle is declared -/

namespace Way

section

variable (way : Way) (target : TypeHandle) (declaration : Option Location)

/-- What a handle is under its sugar does not depend on where a handle further down is declared. -/
theorem desugared_above : (way.above { target with declaration }).desugared.kind = (way.above target).desugared.kind ∧
    (way.above { target with declaration }).desugared.spelling = (way.above target).desugared.spelling := by
  induction way with
  | nil =>
    obtain ⟨kind, spelling, pointee, canonical, result, arguments, fields, element, size, variadic, declared⟩ := target
    cases kind with
    | sugar sugar =>
      cases canonical with
      | none => exact ⟨rfl, rfl⟩
      | some canonical => exact ⟨rfl, rfl⟩
    | _ => exact ⟨rfl, rfl⟩
  | cons layer rest ih =>
    cases layer with
    | sugar kind shell => exact ih
    | pointer shell => exact ⟨rfl, rfl⟩

theorem unnamedRecord?_above :
    (way.above { target with declaration }).unnamedRecord? = (way.above target).unnamedRecord? := by
  obtain ⟨hkind, hspelling⟩ := desugared_above way target declaration
  rw [TypeHandle.unnamedRecord?, TypeHandle.unnamedRecord?, hkind, hspelling]

theorem passes_above (layer : Layer) :
    layer.passes (way.above { target with declaration }) = layer.passes (way.above target) := by
  cases layer with
  | sugar kind shell => rw [Layer.passes, Layer.passes, unnamedRecord?_above]
  | pointer shell => rw [Layer.passes, Layer.passes, (desugared_above way target declaration).1]

theorem fields_above : (way.above { target with declaration }).fields = (way.above target).fields := by
  cases way with
  | nil => rfl
  | cons layer rest => cases layer <;> rfl

theorem recordReferences_above (visiting : List RecordKey) (scope : Scope) (key : RecordKey) :
    (way.above { target with declaration }).recordReferencesIn visiting scope key =
      (way.above target).recordReferencesIn visiting scope key := by
  have hfields (handle : TypeHandle) : handle.recordReferencesIn visiting scope key =
      openedReferences visiting scope key fun visiting => TypeHandle.memberReferences visiting handle.fields := by
    cases handle
    rfl
  rw [hfields, hfields, fields_above]

theorem signatureReferences_above (visiting : List RecordKey) :
    (way.above { target with declaration }).signatureReferencesIn visiting =
      (way.above target).signatureReferencesIn visiting := by
  induction way with
  | nil =>
    obtain ⟨kind, spelling, pointee, canonical, result, arguments, fields, element, size, variadic, declared⟩ := target
    cases kind with
    | sugar sugar =>
      cases canonical with
      | none => rfl
      | some canonical => rfl
    | _ => rfl
  | cons layer rest ih =>
    cases layer with
    | sugar kind shell => exact ih
    | pointer shell => rfl

end

/-- A layer that is not gone through hides where a handle further down is declared. -/
theorem references_of_not_passes (visiting : List RecordKey) (scope : Scope) (hint : Option String) {layer : Layer}
    {rest : Way} {target : TypeHandle} (hstops : ¬ layer.passes (rest.above target)) (declaration : Option Location) :
    (layer.around (rest.above { target with declaration })).referencesIn visiting scope hint =
      (layer.around (rest.above target)).referencesIn visiting scope hint := by
  cases layer with
  | sugar kind shell =>
    obtain ⟨kind, hunnamed⟩ : ∃ kind, (rest.above target).unnamedRecord? = some kind := by
      simpa [Layer.passes, ← Option.ne_none_iff_exists'] using hstops
    simp only [Layer.around, TypeHandle.referencesIn, unnamedRecord?_above, hunnamed, recordReferences_above]
  | pointer shell =>
    have hstops : (rest.above target).desugared.kind.isChar ∨ (rest.above target).desugared.kind.isFunction := by
      simpa [Layer.passes, Bool.or_eq_true_iff, Classical.or_iff_not_imp_left] using hstops
    have hkind := (desugared_above rest target declaration).1
    simp only [Layer.around, TypeHandle.referencesIn, hkind, signatureReferences_above]
    rcases hstops with hchar | hfunction
    · simp only [hchar, if_true]
    · simp only [hfunction, if_true]

/-- On a way that is not open, resolving does not depend on where the handle at its end is declared. -/
theorem references_of_not_isOpen {target : TypeHandle} (declaration : Option Location) (visiting : List RecordKey) :
    ∀ (way : Way) (scope : Scope) (hint : Option String), ¬ way.isOpen target →
      (way.above { target with declaration }).referencesIn visiting scope hint =
        (way.above target).referencesIn visiting scope hint
  | [], _, _, hclosed => absurd rfl hclosed
  | layer :: rest, scope, hint, hclosed => by
    rw [above, above]
    by_cases hpasses : layer.passes (above target rest)
    · have hrest : ¬ isOpen target rest := fun hopen => hclosed (Bool.and_eq_true_iff.2 ⟨hpasses, hopen⟩)
      have hpasses' : layer.passes (above { target with declaration } rest) :=
        (passes_above rest target declaration layer).trans hpasses
      rw [layer.references_of_passes visiting scope hint _ hpasses,
        layer.references_of_passes visiting scope hint _ hpasses',
        references_of_not_isOpen declaration visiting rest _ _ hrest]
    · exact references_of_not_passes visiting scope hint hpasses declaration

end Way

/-! ## What is noted on the way down -/

namespace TypeHandle

/-- **Where the handles on the way down are declared.**  A handle that is reached through nothing but layers that
resolving goes through has the place of its declaration noted.  Behind any other layer that place plays no role: the
references are the same wherever the handle is declared, or if it is declared nowhere. -/
theorem references_of_reaches {handle target : TypeHandle} (hreaches : handle.Reaches target) :
    ∃ way : Way, handle = way.above target ∧
      (way.isOpen target → ∀ location ∈ target.declaration, location ∈ handle.references none) ∧
      (¬ way.isOpen target → ∀ declaration : Option Location,
        (way.above { target with declaration }).references none = handle.references none) := by
  obtain ⟨way, rfl⟩ := hreaches.exists_way
  refine ⟨way, rfl, fun hopen location hdeclared => ?_, fun hclosed declaration => ?_⟩
  · rw [references_eq]
    exact Way.declaration_mem_references hdeclared [] way .outer none hopen
  · rw [references_eq, references_eq]
    exact Way.references_of_not_isOpen declaration [] way .outer none hclosed

/-- A pointer to a typedef of a pointer to a record: three handles down, nothing is skipped. -/
theorem references_of_reaches_window :
    let place : Location := { filename := "/SDK/Windows.framework/Headers/Window.h", line := 12 }
    let window : TypeHandle := { kind := .record .struct, spelling := "struct Window", declaration := some place }
    let handle := pointerTo (synonym "WindowRef" (pointerTo window))
    handle.Reaches window ∧ ∃ way : Way, handle = way.above window ∧
      (way.isOpen window → ∀ location ∈ window.declaration, location ∈ handle.references none) ∧
      (¬ way.isOpen window → ∀ declaration : Option Location,
        (way.above { window with declaration }).references none = handle.references none) := by
  intro place window handle
  have hreaches : handle.Reaches window :=
    .head (b := synonym "WindowRef" (pointerTo window)) rfl (.head (b := pointerTo window) rfl (.single rfl))
  exact ⟨hreaches, references_of_reaches hreaches⟩

/-- The three layers that hide where the next handle is declared: a pointer over a character, a pointer over a
function, and sugar over an unnamed record. -/
theorem not_all_reached_noted :
    let place : Location := { filename := "/SDK/Text.framework/Headers/Text.h", line := 3 }
    let letter : TypeHandle := { synonym "Letter" { kind := .scalar .plainSignedChar } with declaration := some place }
    let compare : TypeHandle :=
      { synonym "Compare" (functionProto { kind := .scalar .int } []) with declaration := some place }
    let unnamed := recordNamed (.record .struct) "struct (unnamed at a.h:1:1)" []
    let inner : TypeHandle := { synonym "Inner" unnamed with declaration := some place }
    ((pointerTo letter).Reaches letter ∧ place ∉ (pointerTo letter).references none) ∧
      ((pointerTo compare).Reaches compare ∧ place ∉ (pointerTo compare).references none) ∧
      ((synonym "Outer" inner).Reaches inner ∧ place ∉ (synonym "Outer" inner).references none) := by
  refine ⟨⟨.single rfl, ?_⟩, ⟨.single rfl, ?_⟩, .single rfl, ?_⟩ <;> decide +kernel

end TypeHandle

end HeaderCatalog
