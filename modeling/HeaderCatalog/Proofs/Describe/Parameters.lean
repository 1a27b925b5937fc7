import HeaderCatalog.Proofs.Describe.Heading
import HeaderCatalog.Proofs.Encoding.ErasedValues

set_option autoImplicit false

/-!
# Parameters and the encoding of their method

The front end reports one encoding for all the types of a method.  A parameter takes its part of it by position: the
parameters are counted among the children of the declaration, whatever stands between them, and the values behind the
returned value, the receiver and the selector.  A type that comes without a handle has nothing but that part.

If the encoding was written from values that can be told apart, the two counts agree and the part of a parameter is its
own value (`Surroundings.method_of_placed`).
-/

namespace HeaderCatalog

open Encoding

/-! ## The encoding of a type without a handle -/

theorem ResolvedType.encoding_ofEncoding {encoding : String} (h : erase encoding.toList ≠ []) :
    (ofEncoding encoding).encoding = erase encoding.toList := by
  unfold ofEncoding
  split
  · rfl
  · next hunusable =>
    have hunknown : erase encoding.toList = Encoding.unknown := by simpa [isUsable, h] using hunusable
    rw [hunknown]
    rfl

namespace EncodedValue

theorem text_ne_nil (value : EncodedValue) : value.text ≠ [] := by
  obtain ⟨c, rest, htext, -⟩ := value.exists_text_eq_cons
  rw [htext]
  exact List.cons_ne_nil c rest

/-- A value is not erased to nothing: what erasure drops of it stands in front of something that it keeps. -/
theorem eraseValue_text_ne_nil (value : EncodedValue) : eraseValue value.text ≠ [] := by
  cases value with
  | primitive code =>
    rw [text, eraseValue_primitive]
    exact List.cons_ne_nil _ _
  | qualified qualifier value =>
    rw [text, eraseValue_qualifier qualifier.2]
    exact eraseValue_text_ne_nil value
  | pointer target =>
    rw [text, eraseValue_pointer]
    exact List.cons_ne_nil _ _
  | array count element => exact (eraseValue_whole (whole_array count element)).symm ▸ text_ne_nil _
  | bareRecord kind name => exact (eraseValue_whole (whole_bareRecord kind name)).symm ▸ text_ne_nil _
  | record kind name members => exact (eraseValue_whole (whole_record kind name members)).symm ▸ text_ne_nil _
  | object =>
    rw [text, eraseValue_body (by decide) rfl]
    exact List.cons_ne_nil _ _
  | objectOf name => exact (eraseValue_whole (whole_objectOf name)).symm ▸ text_ne_nil _
  | block =>
    rw [text, eraseValue_body (by decide) rfl]
    exact List.cons_ne_nil _ _
  | blockOf signature =>
    rw [text, eraseValue_blockOf]
    exact List.cons_ne_nil _ _
  | bitField width => exact (eraseValue_whole (whole_bitField width)).symm ▸ text_ne_nil _

theorem erase_text_ne_nil (value : EncodedValue) : erase value.text ≠ [] := by
  have halone : PlacedValues.Separated [(value, ⟨[], rfl⟩)] := ⟨by simp, List.isChain_singleton _⟩
  have herase := PlacedValues.erase_eq_flatMap halone
  rw [PlacedValues.text, List.flatMap_singleton, List.flatMap_singleton, List.append_nil] at herase
  rw [herase]
  exact value.eraseValue_text_ne_nil

/-- A type that is known by the text of a value only is encoded as the erased value. -/
theorem encoding_ofEncoding_text (value : EncodedValue) :
    (ResolvedType.ofEncoding (String.ofList value.text)).encoding = erase value.text := by
  have herase : erase (String.ofList value.text).toList ≠ [] := by
    rw [String.toList_ofList]
    exact value.erase_text_ne_nil
  rw [ResolvedType.encoding_ofEncoding herase, String.toList_ofList]

end EncodedValue

/-! ## The parts of a method encoding -/

namespace PlacedValues

variable {result receiver selector : Run isOffset} {returns : EncodedValue} {arguments : PlacedValues}

theorem returned?_ofMethod (h : Separated (ofMethod result receiver selector returns arguments)) :
    returned? (ofMethod result receiver selector returns arguments).text = some returns.text := by
  rw [returned?, tokens_text h]
  rfl

theorem methodArguments_ofMethod (h : Separated (ofMethod result receiver selector returns arguments)) :
    methodArguments (ofMethod result receiver selector returns arguments).text =
      arguments.map fun part => part.1.text := by
  rw [methodArguments, tokens_text h]
  rfl

end PlacedValues

/-! ## Parameters in order -/

namespace Surroundings

variable (here : Surroundings)

/-- The arguments are the parameters in order, each described with the hint at its own position. -/
theorem getElem?_arguments (hints : List String) (node : Node) (i : Nat) :
    (here.arguments hints node).value[i]? =
      (node.childrenOf .parameter)[i]?.map fun parameter => (here.argument hints[i]? parameter).value := by
  rw [arguments, Noted.value_mapM, List.getElem?_map, List.getElem?_zipIdx, Option.map_map, Nat.zero_add]
  rfl

theorem length_arguments (hints : List String) (node : Node) :
    (here.arguments hints node).value.length = (node.childrenOf .parameter).length := by
  rw [arguments, Noted.value_mapM, List.length_map, List.length_zipIdx]

theorem name_argument (hint : Option String) (parameter : Node) :
    (here.argument hint parameter).value.name = parameter.name := rfl

theorem type_argument_of_type_eq_none {parameter : Node} (h : parameter.type = none) (hint : Option String) :
    (here.argument hint parameter).value.type = .ofEncoding (hint.getD "") := by
  rw [argument, h]
  rfl

theorem arguments_method (owner : String) (node : Node) :
    (here.method owner node).value.arguments =
      (here.arguments ((methodArguments (node.encoding.getD "").toList).map String.ofList) node).value := by
  unfold method
  dsimp only
  split <;> rfl

theorem returns_method_of_resultType_eq_none {node : Node} (h : node.resultType = none) {value : Encoding}
    (hreturned : returned? (node.encoding.getD "").toList = some value) (owner : String) :
    (here.method owner node).value.returns.type = .ofEncoding (String.ofList value) := by
  rw [method, h, hreturned]
  rfl

/-- **The parameters of a method and the values of its encoding line up.**  If the encoding of a method is written from
values that can be told apart, one for each parameter, then the method has its parameters in order under their names;
each without a handle is encoded as the erased form of its own value, and the returned value without a handle as that
of the first value. -/
theorem method_of_placed (owner : String) (node : Node) (result receiver selector : Run isOffset)
    (returns : EncodedValue) (arguments : PlacedValues)
    (hseparated : (PlacedValues.ofMethod result receiver selector returns arguments).Separated)
    (hencoding : node.encoding =
      some (String.ofList (PlacedValues.ofMethod result receiver selector returns arguments).text))
    (hresult : node.resultType = none)
    (hcount : (node.children.filter fun child => child.kind = .parameter).length = arguments.length) :
    (here.method owner node).value.arguments.length = arguments.length ∧
    (∀ (i : Nat) (parameter : Node) (value : EncodedValue) (offset : Run isOffset),
      (node.children.filter fun child => child.kind = .parameter)[i]? = some parameter →
      arguments[i]? = some (value, offset) →
        ∃ argument, (here.method owner node).value.arguments[i]? = some argument ∧
          argument.name = parameter.name ∧ (parameter.type = none → argument.type.encoding = erase value.text)) ∧
    (here.method owner node).value.returns.type.encoding = erase returns.text := by
  have htext : (node.encoding.getD "").toList =
      (PlacedValues.ofMethod result receiver selector returns arguments).text := by
    rw [hencoding, Option.getD_some, String.toList_ofList]
  refine ⟨?_, fun i parameter value offset hparameter hvalue => ?_, ?_⟩
  · rw [arguments_method, length_arguments]
    exact hcount
  · have hhint : ((methodArguments (node.encoding.getD "").toList).map String.ofList)[i]? =
        some (String.ofList value.text) := by
      rw [htext, PlacedValues.methodArguments_ofMethod hseparated, List.getElem?_map, List.getElem?_map, hvalue]
      rfl
    have hargument : (here.method owner node).value.arguments[i]? =
        some (here.argument (some (String.ofList value.text)) parameter).value := by
      rw [arguments_method, getElem?_arguments, hhint, Node.childrenOf, hparameter, Option.map_some]
    refine ⟨_, hargument, here.name_argument _ parameter, fun htype => ?_⟩
    rw [here.type_argument_of_type_eq_none htype, Option.getD_some, value.encoding_ofEncoding_text]
  · have hreturned := htext ▸ PlacedValues.returned?_ofMethod hseparated
    rw [here.returns_method_of_resultType_eq_none hresult hreturned, returns.encoding_ofEncoding_text]

/-- The arguments of `v32@0:8r^v16@?<v@?i>24`, between children that are no parameters. -/
theorem method_of_placed_reader :
    let here : Surroundings := ⟨{}, .empty, .unresolved⟩
    let void : EncodedValue := .primitive ⟨'v', by decide⟩
    let buffer : EncodedValue := .qualified ⟨'r', by decide⟩ (.pointer void)
    let handler : EncodedValue := .blockOf
      [(void, ⟨[], by decide⟩), (.block, ⟨[], by decide⟩), (.primitive ⟨'i', by decide⟩, ⟨[], by decide⟩)]
    let arguments : PlacedValues := [(buffer, ⟨['1', '6'], by decide⟩), (handler, ⟨['2', '4'], by decide⟩)]
    let values := PlacedValues.ofMethod ⟨['3', '2'], by decide⟩ ⟨['0'], by decide⟩ ⟨['8'], by decide⟩ void arguments
    let first : Node := { kind := .parameter, name := "buffer" }
    let second : Node :=
      { kind := .parameter, name := "handler", children := [{ kind := .parameter, name := "code" }] }
    let node : Node :=
      { kind := .instanceMethod
        name := "read:handler:"
        encoding := some "v32@0:8r^v16@?<v@?i>24"
        children := [{ kind := .typeRef, name := "Reader" }, first, { kind := .other "NSConsumed" }, second] }
    values.Separated ∧ node.encoding = some (String.ofList values.text) ∧
    (node.children.filter fun child => child.kind = .parameter).length = arguments.length ∧
    (here.method "Reader" node).value.arguments.length = 2 ∧
    (∃ argument, (here.method "Reader" node).value.arguments[0]? = some argument ∧ argument.name = "buffer" ∧
      argument.type.encoding = "^v".toList) ∧
    (∃ argument, (here.method "Reader" node).value.arguments[1]? = some argument ∧ argument.name = "handler" ∧
      argument.type.encoding = "@?<v@?i>".toList) ∧
    (here.method "Reader" node).value.returns.type.encoding = "v".toList := by
  intro here void buffer handler arguments values first second node
  have hseparated : values.Separated := by decide
  have hencoding : node.encoding = some (String.ofList values.text) := by decide +kernel
  have hcount : (node.children.filter fun child => child.kind = .parameter).length = arguments.length := by
    decide +kernel
  obtain ⟨hlength, harguments, hreturns⟩ :=
    here.method_of_placed "Reader" node _ _ _ void arguments hseparated hencoding rfl hcount
  obtain ⟨argument, hargument, hname, htype⟩ := harguments 0 first buffer _ rfl rfl
  obtain ⟨argument', hargument', hname', htype'⟩ := harguments 1 second handler _ rfl rfl
  refine ⟨hseparated, hencoding, hcount, hlength, ⟨argument, hargument, hname, ?_⟩,
    ⟨argument', hargument', hname', ?_⟩, ?_⟩
  · rw [htype rfl]
    decide +kernel
  · rw [htype' rfl]
    decide +kernel
  · rw [hreturns]
    decide +kernel

end Surroundings

end HeaderCatalog
