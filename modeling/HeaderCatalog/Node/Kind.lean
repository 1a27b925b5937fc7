import HeaderCatalog.Encoding.Record

set_option autoImplicit false

/-!
# Kinds of nodes

The kinds of declarations and references in a syntax tree.  As with types, a tag that has no constructor of its own is
kept as it is.
-/

namespace HeaderCatalog

/-- What a node of the syntax tree declares or refers to. -/
inductive NodeKind where
  /-- The root of the tree of one compiled unit. -/
  | unit
  | interface
  | category
  | protocol
  | instanceMethod
  | classMethod
  | property
  | ivar
  | superclassRef
  | protocolRef
  | classRef
  | record (kind : RecordKind)
  | field
  | enum
  | enumConstant
  | function
  | global
  | parameter
  | synonym
  | typeRef
  /-- A wrapper that sets the linkage of what is inside. -/
  | linkage
  /-- A wrapper that the front end says nothing about. -/
  | unexposed
  /-- A tag that is none of the above. -/
  | other (tag : String)
  deriving DecidableEq, Repr, Inhabited

namespace NodeKind

/-- The tag of a kind. -/
def tag : NodeKind → String
  | unit => "TranslationUnit"
  | interface => "ObjCInterfaceDecl"
  | category => "ObjCCategoryDecl"
  | protocol => "ObjCProtocolDecl"
  | instanceMethod => "ObjCInstanceMethodDecl"
  | classMethod => "ObjCClassMethodDecl"
  | property => "ObjCPropertyDecl"
  | ivar => "ObjCIvarDecl"
  | superclassRef => "ObjCSuperClassRef"
  | protocolRef => "ObjCProtocolRef"
  | classRef => "ObjCClassRef"
  | record .struct => "StructDecl"
  | record .union => "UnionDecl"
  | field => "FieldDecl"
  | enum => "EnumDecl"
  | enumConstant => "EnumConstantDecl"
  | function => "FunctionDecl"
  | global => "VarDecl"
  | parameter => "ParmDecl"
  | synonym => "TypedefDecl"
  | typeRef => "TypeRef"
  | linkage => "LinkageSpec"
  | unexposed => "UnexposedDecl"
  | other tag => tag

/-- Every kind that has a constructor of its own. -/
def known : List NodeKind :=
  [unit, interface, category, protocol, instanceMethod, classMethod, property, ivar, superclassRef,
    protocolRef, classRef, record .struct, record .union, field, enum, enumConstant, function, global, parameter,
    synonym, typeRef, linkage, unexposed]

/-- The kind with a tag. -/
def ofTag (tag : String) : NodeKind := (known.find? (·.tag = tag)).getD (other tag)

/-- No tag is lost: a kind read from a tag is written as that tag. -/
@[simp] theorem tag_ofTag (s : String) : (ofTag s).tag = s := by
  unfold ofTag
  cases h : known.find? (·.tag = s) with
  | none => rfl
  | some kind => simpa using List.find?_some h

/-- Tags and the kinds read from them correspond one to one. -/
theorem ofTag_inj {s t : String} : ofTag s = ofTag t ↔ s = t :=
  ⟨fun h => by rw [← tag_ofTag s, h, tag_ofTag], fun h => h ▸ rfl⟩

/-- Whether the children of a node count as its siblings. -/
def isTransparent : NodeKind → Bool
  | linkage | unexposed => true
  | _ => false

end NodeKind

end HeaderCatalog
