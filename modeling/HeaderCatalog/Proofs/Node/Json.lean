import HeaderCatalog.Node.Json
import HeaderCatalog.Proofs.Handle.Json
import HeaderCatalog.Proofs.Survey.References

set_option autoImplicit false

/-!
# Nodes that are written and read again

As with handles: a node that was read is written with the tags it was read with, and read again as the same node
(`read_written`).  The nodes inside it were read with fewer levels, and the handles as well.
-/

namespace HeaderCatalog

open Json

theorem Availability.toJson_ne_null (availability : Availability) : availability.toJson ≠ .null := by
  simp [toJson]

theorem Availability.readsBack (availability : Availability) : ReadsBack ofJson? toJson availability := by
  intro levels hdepth
  obtain ⟨levels, rfl, -⟩ := exists_levels hdepth
  have hfields : availability.toJson.fields? ["introduced", "deprecated", "obsoleted", "unavailable"] =
      some [some (.ofOption .text availability.introduced), some (.ofOption .text availability.deprecated),
        some (.ofOption .text availability.obsoleted), some (.bool availability.unavailable)] :=
    fields?_object (show ["introduced", "deprecated", "obsoleted", "unavailable"].Nodup by decide)
  have htext (value : Option String) : optional text? (some (ofOption .text value)) = some value :=
    optional_ofOption fun _ _ => ⟨by simp, rfl⟩
  rw [ofJson?, hfields]
  simp only [Option.bind_eq_bind, Option.bind_some, htext, defaulting, bool?]
  rfl

namespace Node

/-! ## Writing -/

theorem listToJson_eq (nodes : List Node) : listToJson nodes = nodes.map toJson := by
  induction nodes with
  | nil => rfl
  | cons node rest ih => rw [listToJson, ih, List.map_cons]

/-- The fields that are written of a node. -/
def written (node : Node) : List (String × Json) :=
  [("kind", .text node.kind.tag), ("name", .text node.name), ("location", .ofOption Location.toJson node.location),
    ("type", .ofOption TypeHandle.toJson node.type), ("result_type", .ofOption TypeHandle.toJson node.resultType),
    ("encoding", .ofOption .text node.encoding), ("value", .ofOption (fun n : Int64 => .int n.toInt) node.value),
    ("optional", .bool node.optional), ("attributes", .texts node.attributes),
    ("availability", .ofOption Availability.toJson node.availability),
    ("referenced", .ofOption Location.toJson node.referenced), ("children", .list (node.children.map toJson))]

theorem toJson_eq (node : Node) : node.toJson = .object node.written := by
  cases node
  simp only [toJson, written, listToJson_eq]

/-! ## Reading -/

theorem nodesOfJson?_eq : nodesOfJson? = list? ofJsonWithin? := by
  funext levels value
  cases levels with
  | zero => rfl
  | succ levels => cases value <;> rfl

/-- The values in a value that are read as the handles of a node. -/
def typesIn (value : Json) : List Json :=
  given (value.field? fieldNames "type") ++ given (value.field? fieldNames "result_type")

/-- The values in a value that are read as the children of a node. -/
def childrenIn (value : Json) : List Json := items (value.field? fieldNames "children")

/-- The tag of a value that is read as a node. -/
def tagIn? (value : Json) : Option String := (value.field? fieldNames "kind").bind text?

/-- What a node was read from: a tag, and parts that were read as its handles and its children. -/
theorem parts_of_ofJsonWithin? {levels : Nat} {value : Json} {node : Node}
    (h : ofJsonWithin? levels value = some node) :
    (∃ tag, tagIn? value = some tag ∧ node.kind = .ofTag tag) ∧
      List.Forall₂ (ReadBelow TypeHandle.ofJsonWithin? levels) (typesIn value) node.types ∧
      List.Forall₂ (ReadBelow ofJsonWithin? levels) (childrenIn value) node.children := by
  cases levels with
  | zero => cases h
  | succ levels =>
    unfold ofJsonWithin? at h
    obtain ⟨_, hfields, h⟩ := Option.bind_eq_some_iff.1 h
    split at h
    case h_2 => cases h
    case h_1 kind name location type result encoding number isOptional attributes availability referenced children =>
      have hfield (wanted : String) : value.field? fieldNames wanted =
          ([kind, name, location, type, result, encoding, number, isOptional, attributes, availability, referenced,
            children][fieldNames.idxOf wanted]?).join := by
        rw [field?, hfields]
        rfl
      simp only [Option.bind_eq_bind, Option.bind_eq_some_iff, Option.pure_def, Option.some.injEq] at h
      obtain ⟨tag, htag, _, -, _, -, _, htype, _, hresult, _, -, _, -, _, -, _, -, _, -, _, -, _, hchildren, rfl⟩ := h
      refine ⟨⟨tag, ?_, rfl⟩, ?_, ?_⟩
      · rw [tagIn?, hfield, ← required_eq_bind]
        exact htag
      · rw [typesIn, hfield, hfield]
        exact List.rel_append (forall₂_given htype) (forall₂_given hresult)
      · rw [childrenIn, hfield]
        exact (forall₂_items (nodesOfJson?_eq ▸ hchildren)).imp fun _ _ hread => hread.mono (Nat.le_succ levels)

/-! ## Tags -/

/-- The tags of a node, of its handles and of the nodes inside it. -/
def tags (node : Node) : List String :=
  node.subtree.flatMap fun part => part.kind.tag :: part.types.flatMap (·.tags)

theorem tags_eq (node : Node) :
    node.tags = node.kind.tag :: (node.types.flatMap (·.tags) ++ node.children.flatMap tags) := by
  rw [tags, subtree_eq, List.flatMap_cons, subtrees_eq_flatMap, List.flatMap_assoc]
  rfl

/-- The tags in a value that is read as a node, for nodes and handles nested no deeper than the levels. -/
def tagsWithin : Nat → Json → List String
  | 0, _ => []
  | levels + 1, value =>
    (tagIn? value).toList ++
      ((typesIn value).flatMap (TypeHandle.tagsWithin levels) ++ (childrenIn value).flatMap (tagsWithin levels))

/-- A node has the tags that it was read with. -/
theorem tagsWithin_eq {levels more : Nat} {value : Json} {node : Node}
    (h : ofJsonWithin? levels value = some node) (hle : levels ≤ more) : tagsWithin more value = node.tags := by
  induction levels using Nat.strongRecOn generalizing more value node with
  | _ levels ih =>
    obtain ⟨⟨tag, htag, hkind⟩, htypes, hchildren⟩ := parts_of_ofJsonWithin? h
    cases more with
    | zero =>
      cases Nat.le_zero.1 hle
      cases h
    | succ more =>
      have hless {fewer : Nat} (hfewer : fewer < levels) : fewer ≤ more :=
        Nat.le_of_lt_succ (Nat.lt_of_lt_of_le hfewer hle)
      have hhandles : (typesIn value).flatMap (TypeHandle.tagsWithin more) = node.types.flatMap (·.tags) :=
        flatMap_eq_of_forall₂ htypes fun _ _ ⟨_, hfewer, hread⟩ => TypeHandle.tagsWithin_eq hread (hless hfewer)
      have hinner : (childrenIn value).flatMap (tagsWithin more) = node.children.flatMap tags :=
        flatMap_eq_of_forall₂ hchildren fun _ _ ⟨fewer, hfewer, hread⟩ => ih fewer hfewer hread (hless hfewer)
      rw [tagsWithin, tags_eq, htag, hkind, NodeKind.tag_ofTag, hhandles, hinner]
      rfl

/-- The tags in a value that is read as a node. -/
def tagsIn (value : Json) : List String := tagsWithin value.depth value

/-! ## Reading what was written -/

/-- A node can be read again if its handles and its children can, and its kind is read from its tag. -/
theorem readsBack_of_parts {node : Node} (hkind : NodeKind.ofTag node.kind.tag = node.kind)
    (htypes : ∀ handle ∈ node.types, ReadsBack TypeHandle.ofJsonWithin? TypeHandle.toJson handle)
    (hchildren : ∀ child ∈ node.children, ReadsBack ofJsonWithin? toJson child) :
    ReadsBack ofJsonWithin? toJson node := by
  intro levels hdepth
  rw [toJson_eq] at hdepth ⊢
  obtain ⟨levels, rfl, hentry⟩ := exists_levels hdepth
  have hwritten : (object node.written).fields? fieldNames = some (node.written.map fun entry => some entry.2) :=
    fields?_object (show fieldNames.Nodup by decide)
  simp only [types, List.forall_mem_append, Option.mem_toList] at htypes
  obtain ⟨htype, hresult⟩ := htypes
  simp only [written, List.forall_mem_cons] at hentry
  obtain ⟨-, -, dlocation, dtype, dresult, -, -, -, dattributes, davailability, dreferenced, dchildren, -⟩ := hentry
  have hhandle {handle : Option TypeHandle}
      (hinner : ∀ inner ∈ handle, ReadsBack TypeHandle.ofJsonWithin? TypeHandle.toJson inner)
      (dhandle : (ofOption TypeHandle.toJson handle).depth ≤ levels) :
      Json.optional (TypeHandle.ofJsonWithin? levels) (some (ofOption TypeHandle.toJson handle)) = some handle :=
    optional_of_readsBack (fun inner hmem => ⟨inner.toJson_ne_null, hinner inner hmem⟩) dhandle
  have hplace {location : Option Location} (dplace : (ofOption Location.toJson location).depth ≤ levels) :
      Json.optional (Location.ofJson? levels) (some (ofOption Location.toJson location)) = some location :=
    optional_of_readsBack (fun location _ => ⟨location.toJson_ne_null, location.readsBack⟩) dplace
  have hencoding : Json.optional text? (some (ofOption .text node.encoding)) = some node.encoding :=
    optional_ofOption fun _ _ => ⟨by simp, rfl⟩
  have hvalue : Json.optional int64? (some (ofOption (fun n : Int64 => .int n.toInt) node.value)) = some node.value :=
    optional_ofOption fun n _ => ⟨by simp, int64?_toInt n⟩
  have havailability : Json.optional (Availability.ofJson? levels)
      (some (ofOption Availability.toJson node.availability)) = some node.availability :=
    optional_of_readsBack (fun availability _ => ⟨availability.toJson_ne_null, availability.readsBack⟩) davailability
  have hnodes : nodesOfJson? levels (.list (node.children.map toJson)) = some node.children := by
    rw [nodesOfJson?_eq]
    exact readsBack_list hchildren levels dchildren
  rw [ofJsonWithin?, hwritten]
  simp only [written, List.map_cons, List.map_nil, Option.bind_eq_bind, Option.bind_some, required, defaulting, text?,
    bool?, hplace dlocation, hhandle htype dtype, hhandle hresult dresult, hencoding, hvalue,
    readsBack_texts node.attributes levels dattributes, havailability, hplace dreferenced, hnodes, hkind]
  cases node
  rfl

/-- A node that was read is read again from what is written of it. -/
theorem readsBack {levels : Nat} {value : Json} {node : Node} (h : ofJsonWithin? levels value = some node) :
    ReadsBack ofJsonWithin? toJson node := by
  induction levels using Nat.strongRecOn generalizing value node with
  | _ levels ih =>
    obtain ⟨⟨tag, -, hkind⟩, htypes, hchildren⟩ := parts_of_ofJsonWithin? h
    refine readsBack_of_parts (by rw [hkind, NodeKind.tag_ofTag]) (fun handle hhandle => ?_) fun child hchild => ?_
    · obtain ⟨part, fewer, -, hread⟩ := exists_of_forall₂ htypes hhandle
      exact TypeHandle.readsBack hread
    · obtain ⟨part, fewer, hfewer, hread⟩ := exists_of_forall₂ hchildren hchild
      exact ih fewer hfewer hread

end Node

/-- **Written as it was read.**  A node, or a handle, that was read from a value is read again from what is written of
it.  It has the tags that stand in the value, and every one of them is written again; kinds are equal exactly if their
tags are. -/
theorem read_written (value : Json) :
    (∀ node, Node.ofJson? value = some node →
      Node.ofJson? node.toJson = some node ∧ Node.tagsIn value = node.tags ∧ Node.tagsIn node.toJson = node.tags) ∧
    (∀ handle, TypeHandle.ofJson? value = some handle →
      TypeHandle.ofJson? handle.toJson = some handle ∧ TypeHandle.tagsIn value = handle.tags ∧
        TypeHandle.tagsIn handle.toJson = handle.tags) ∧
    (∀ first second, NodeKind.ofTag first = NodeKind.ofTag second ↔ first = second) ∧
    (∀ first second, TypeKind.ofTag first = TypeKind.ofTag second ↔ first = second) := by
  refine ⟨fun node hnode => ?_, fun handle hhandle => ?_, fun _ _ => NodeKind.ofTag_inj, fun _ _ => TypeKind.ofTag_inj⟩
  · have hagain : Node.ofJson? node.toJson = some node := Node.readsBack hnode _ (Nat.le_refl _)
    exact ⟨hagain, Node.tagsWithin_eq hnode (Nat.le_refl _), Node.tagsWithin_eq hagain (Nat.le_refl _)⟩
  · have hagain : TypeHandle.ofJson? handle.toJson = some handle := TypeHandle.readsBack hhandle _ (Nat.le_refl _)
    exact ⟨hagain, TypeHandle.tagsWithin_eq hhandle (Nat.le_refl _), TypeHandle.tagsWithin_eq hagain (Nat.le_refl _)⟩

/-- A category in the form of a list, with tags and fields that are not known, and the type of one of its children. -/
theorem read_written_category :
    let type : Json := .object [("sugar", .unread), ("kind", .text "Flexible"), ("spelling", .text "__kindof View"),
      ("arguments", .list [.list [.text "Int"], .object [("kind", .text "Pointer"), ("pointee", .null)]])]
    let children : Json := .list [.object [("kind", .text "ObjCClassRef"), ("name", .text "View")],
      .object [("type", type), ("kind", .text "ObjCSubscriptDecl"), ("line", .int 3)]]
    let value : Json := .list [.text "ObjCCategoryDecl", .text "Drawing", .list [.text "/View.h"], .null, .null, .null,
      .int (-1), .bool true, .list [.text "copy"], .object [("obsoleted", .text "9.0")], .null, children]
    (∃ node, Node.ofJson? value = some node ∧ Node.ofJson? node.toJson = some node ∧
      Node.tagsIn node.toJson =
        ["ObjCCategoryDecl", "ObjCClassRef", "ObjCSubscriptDecl", "Flexible", "Int", "Pointer"]) ∧
    ∃ handle, TypeHandle.ofJson? type = some handle ∧ TypeHandle.ofJson? handle.toJson = some handle ∧
      TypeHandle.tagsIn handle.toJson = ["Flexible", "Int", "Pointer"] := by
  intro type children value
  have hnodeTags : Node.tagsIn value =
      ["ObjCCategoryDecl", "ObjCClassRef", "ObjCSubscriptDecl", "Flexible", "Int", "Pointer"] := by
    decide +kernel
  have hhandleTags : TypeHandle.tagsIn type = ["Flexible", "Int", "Pointer"] := by decide +kernel
  have hnodeSome : (Node.ofJson? value).isSome := by decide +kernel
  have hhandleSome : (TypeHandle.ofJson? type).isSome := by decide +kernel
  obtain ⟨node, hnode⟩ := Option.isSome_iff_exists.1 hnodeSome
  obtain ⟨handle, hhandle⟩ := Option.isSome_iff_exists.1 hhandleSome
  refine ⟨⟨node, hnode, ?_⟩, handle, hhandle, ?_⟩
  · obtain ⟨hagain, hread, hwritten⟩ := (read_written value).1 node hnode
    exact ⟨hagain, hwritten.trans (hread.symm.trans hnodeTags)⟩
  · obtain ⟨hagain, hread, hwritten⟩ := (read_written type).2.1 handle hhandle
    exact ⟨hagain, hwritten.trans (hread.symm.trans hhandleTags)⟩

end HeaderCatalog
