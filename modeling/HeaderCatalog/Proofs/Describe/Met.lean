import HeaderCatalog.Proofs.Describe.Calls

set_option autoImplicit false

/-!
# The blocks that a declaration meets

Blocks are noted by many descriptions, one for each thing that has a type.  All of them come to one list: the handles
that a declaration is described with (`Settings.describedTypes`), and the blocks met in these (`Surroundings.met`).  So
there is one equation for each description here, and what is noted for a handle has been said before.

Which handles these are follows from the declaration and the settings.  Fields and integer types are described too, but
their blocks are not looked for.
-/

namespace HeaderCatalog

/-! ## Described types -/

namespace Node

/-- The types of the parameters, in order. -/
def parameterTypes (node : Node) : List TypeHandle := (node.childrenOf .parameter).filterMap (·.type)

/-- The types that a member of a class is described with, if it applies. -/
def memberTypes (minVersion : String) (member : Node) : List TypeHandle :=
  if member.isAvailable minVersion then
    match member.kind with
    | .instanceMethod | .classMethod => member.resultType.toList ++ member.parameterTypes
    | .property | .ivar => member.type.toList
    | _ => []
  else []

/-- What a function is reported to return, with the declaration or with its type. -/
def functionResult? (node : Node) : Option TypeHandle :=
  node.resultType.or ((node.type.map (·.desugared)).bind (·.result))

end Node

/-- The types of the arguments, returned values, properties, instance variables, variables and typedefs that a
declaration is described with. -/
def Settings.describedTypes (settings : Settings) (node : Node) : List TypeHandle :=
  match node.kind with
  | .interface | .protocol =>
    if node.name.isEmpty then [] else node.children.flatMap (·.memberTypes settings.minVersion)
  | .category =>
    if (Surroundings.extendedClass? node).isNone then []
    else node.children.flatMap (·.memberTypes settings.minVersion)
  | .function => if node.name.isEmpty then [] else node.functionResult?.toList ++ node.parameterTypes
  | .global | .synonym => if node.name.isEmpty then [] else node.type.toList
  | _ => []

/-- A loop whose steps note blocks whatever value they are given notes these blocks one after the other. -/
theorem Noted.blocks_foldlM {α β : Type} {f : β → α → Noted β} {blocks : α → List Block}
    (h : ∀ value x, (f value x).blocks = blocks x) (value : β) (xs : List α) :
    (xs.foldlM f value).blocks = xs.flatMap blocks := by
  induction xs generalizing value with
  | nil => rfl
  | cons x xs ih => rw [List.foldlM_cons, Noted.blocks_bind, h, ih, List.flatMap_cons]

namespace Surroundings

variable (here : Surroundings)

@[simp] theorem met_nil : here.met [] = [] := rfl

theorem met_cons (handle : TypeHandle) (rest : List TypeHandle) :
    here.met (handle :: rest) = (here.collectBlock? handle).blocks ++ here.met rest :=
  List.flatMap_cons

theorem met_flatMap {α : Type} (xs : List α) (handles : α → List TypeHandle) :
    here.met (xs.flatMap handles) = xs.flatMap fun x => here.met (handles x) :=
  List.flatMap_assoc

theorem met_of_unnamedRecord? {handle : TypeHandle} {kind : RecordKind} (h : handle.unnamedRecord? = some kind) :
    here.met [handle] = [] := by
  rw [met_cons, blocks_collectBlock?_of_none here (TypeHandle.blockCall?_of_unnamedRecord? h)]
  rfl

/-! ## Members, arguments and returned values -/

theorem blocks_declaredType (hint : Option String) (handle : Option TypeHandle) :
    (here.declaredType hint handle).blocks = here.met handle.toList := by
  cases handle with
  | none => rfl
  | some handle => simp [declaredType, type, met_cons]

theorem blocks_returned (hint : Option String) (handle : TypeHandle) :
    (here.returned hint handle).blocks = (here.collectBlock? handle).blocks := by
  simp [returned, type]

theorem blocks_argument (hint : Option String) (node : Node) :
    (here.argument hint node).blocks = here.met node.type.toList := by
  simp [argument, blocks_declaredType]

theorem blocks_arguments (hints : List String) (node : Node) :
    (here.arguments hints node).blocks = here.met node.parameterTypes := by
  have hzip (start : Nat) (parameters : List Node) :
      ((parameters.zipIdx start).flatMap fun pair => here.met pair.1.type.toList) =
        here.met (parameters.filterMap (·.type)) := by
    induction parameters generalizing start with
    | nil => rfl
    | cons parameter rest ih =>
      rw [List.zipIdx_cons, List.flatMap_cons, ih]
      cases htype : parameter.type <;> simp [htype, met_cons]
  unfold arguments
  rw [Noted.blocks_mapM]
  simp only [blocks_argument]
  exact hzip 0 _

theorem blocks_method (owner : String) (node : Node) :
    (here.method owner node).blocks = here.met (node.resultType.toList ++ node.parameterTypes) := by
  unfold method
  dsimp only
  cases node.resultType with
  | some handle => simp [blocks_returned, blocks_arguments, met_cons]
  | none => split <;> simp_all [blocks_arguments]

theorem blocks_property (node : Node) : (here.property node).blocks = here.met node.type.toList := by
  simp [property, blocks_declaredType]

theorem blocks_ivar (node : Node) : (here.ivar node).blocks = here.met node.type.toList := by
  simp [ivar, blocks_declaredType]

/-! ## Declarations with methods -/

theorem blocks_withChild (entry : ClassEntry) (child : Node) :
    (here.withChild entry child).blocks = here.met (child.memberTypes here.settings.minVersion) := by
  have hmember {noted : Noted ClassEntry} {handles : List TypeHandle} (h : noted.blocks = here.met handles) :
      (if child.isAvailable here.settings.minVersion = true then noted else pure entry).blocks =
        here.met (if child.isAvailable here.settings.minVersion = true then handles else []) := by
    split
    · exact h
    · rfl
  unfold withChild Node.memberTypes
  cases child.kind with
  | superclassRef | protocolRef => exact (congrArg here.met (ite_self [])).symm
  | instanceMethod | classMethod => exact hmember (by simp [blocks_method])
  | property => exact hmember (by simp [blocks_property])
  | ivar => exact hmember (by simp [blocks_ivar])
  | _ => exact hmember rfl

theorem blocks_withChildren (entry : ClassEntry) (node : Node) : (here.withChildren entry node).blocks =
    here.met (node.children.flatMap (·.memberTypes here.settings.minVersion)) := by
  rw [met_flatMap]
  exact Noted.blocks_foldlM (fun value child => here.blocks_withChild value child) entry node.children

@[simp] theorem blocks_enter (node : Node) : (here.enter node).blocks = [] := rfl

@[simp] theorem settings_enter (node : Node) : (here.enter node).value.settings = here.settings := rfl

theorem blocks_interface (node : Node) : (here.interface node).blocks =
    (here.enter node).value.met (node.children.flatMap (·.memberTypes here.settings.minVersion)) := by
  simp [interface, blocks_withChildren]

theorem blocks_protocol (node : Node) : (here.protocol node).blocks =
    (here.enter node).value.met (node.children.flatMap (·.memberTypes here.settings.minVersion)) := by
  simp [protocol, blocks_withChildren]

theorem blocks_category? (node : Node) : (here.category? node).blocks =
    (here.enter node).value.met (if (extendedClass? node).isNone then []
      else node.children.flatMap (·.memberTypes here.settings.minVersion)) := by
  unfold category?
  cases extendedClass? node with
  | none => rfl
  | some extended => simp [Noted.refer, blocks_withChildren]

/-! ## Other declarations -/

theorem blocks_field (node : Node) : (here.field node).blocks = [] := by
  unfold field
  cases node.type <;> rfl

/-- The fields of a record note no blocks. -/
theorem blocks_record (kind : RecordKind) (node : Node) : (here.record kind node).blocks = [] := by
  simp [record, Noted.blocks_mapM, blocks_field]

theorem blocks_integerType (node : Node) : (here.integerType node).blocks = [] := by
  unfold integerType
  cases node.type <;> rfl

theorem blocks_enum (node : Node) : (here.enum node).blocks = [] := by
  simp [enum, blocks_integerType]

theorem blocks_anonymousConstants (node : Node) : (here.anonymousConstants node).blocks = [] := by
  simp [anonymousConstants, blocks_integerType, Noted.blocks_mapM]

theorem blocks_global (node : Node) :
    (here.global node).blocks = (here.enter node).value.met node.type.toList := by
  simp [global, blocks_declaredType]

theorem blocks_function (node : Node) :
    (here.function node).blocks = (here.enter node).value.met (node.functionResult?.toList ++ node.parameterTypes) := by
  unfold function Node.functionResult?
  rw [Noted.blocks_bind, blocks_enter, List.nil_append]
  dsimp only
  split
  case h_1 handle hresult => simp [hresult, blocks_returned, blocks_arguments, met_cons]
  case h_2 hresult => simp [hresult, blocks_arguments]

theorem blocks_synonym (node : Node) :
    (here.synonym node).blocks = (here.enter node).value.met node.type.toList := by
  simp [synonym, blocks_declaredType]

theorem blocks_synonymOfRecord (entry : RecordEntry) (node : Node) :
    (here.synonymOfRecord entry node).blocks = [] := rfl

end Surroundings

end HeaderCatalog
