import HeaderCatalog.Proofs.Resolution.Place

set_option autoImplicit false

/-!
# Records under layers of other types

A type can be wrapped in layers: pointers, arrays of known and of unknown length, and sugar.  Each layer is written
around what is inside it, or leaves no trace (`Wrapping.encoding_wrap`), and some of them count as pointers for the
records inside.  A named record under such layers is written with its members behind one pointer at most, and as a field
behind none (`Wrapping.encoding_wrap_record`).  How the layers are mixed makes no difference, and nor does it that
pointers are counted only so far: the count stops where no record has been opened for long
(`Wrapping.opensRecords_outer`).
-/

namespace HeaderCatalog

/-- A layer around a type: all of a handle but the type inside. -/
inductive Wrapping where
  | pointer (shell : TypeHandle)
  /-- An array of unknown length, which is written as a pointer and counts as one. -/
  | incompleteArray (shell : TypeHandle)
  | constantArray (shell : TypeHandle)
  | sugar (way : Sugar) (shell : TypeHandle)

namespace Wrapping

/-- The handle of the type around a part. -/
def around : Wrapping → TypeHandle → TypeHandle
  | pointer shell, part => { shell with kind := .pointer, pointee := some part }
  | incompleteArray shell, part => { shell with kind := .incompleteArray, element := some part }
  | constantArray shell, part => { shell with kind := .constantArray, element := some part }
  | sugar way shell, part => { shell with kind := .sugar way, canonical := some part }

/-- What is written around the encoding of the part. -/
def write : Wrapping → Encoding → Encoding
  | pointer _, inner | incompleteArray _, inner => '^' :: inner
  | constantArray shell, inner => '[' :: (toString (shell.size.getD 0).toNat).toList ++ inner ++ [']']
  | sugar _ _, inner => inner

/-- Whether the part stands one pointer further on. -/
def isPointer : Wrapping → Bool
  | pointer _ | incompleteArray _ => true
  | constantArray _ | sugar _ _ => false

/-- The place of the part. -/
def inside (scope : Scope) (layer : Wrapping) : Scope := if layer.isPointer then scope.behindPointer else scope

/-- A handle under layers, of which the first is the outermost. -/
def wrap (layers : List Wrapping) (handle : TypeHandle) : TypeHandle := layers.foldr around handle

/-- What is written for layers around an encoding. -/
def writeAll (layers : List Wrapping) (encoding : Encoding) : Encoding := layers.foldr write encoding

/-- The place under layers. -/
def innermost (scope : Scope) (layers : List Wrapping) : Scope := layers.foldl inside scope

/-- The number of layers that count as pointers. -/
def pointers (layers : List Wrapping) : Nat := layers.countP isPointer

end Wrapping

/-! ## Types under layers -/

/-- A type that leaves the layers around it as they are: a pointer to it has no form of its own, and it is no record
that takes the name of the sugar above it. -/
structure TypeHandle.Plain (handle : TypeHandle) : Prop where
  pointee : handle.isSpecialPointee = false
  named : handle.unnamedRecord? = none

theorem TypeHandle.plain_record {record : TypeHandle} {kind : RecordKind} (hkind : record.kind = .record kind)
    (hname : Naming.isAnonymous (Naming.ofRecord record.spelling) = false) : record.Plain := by
  have hdesugared : record.desugared = record := by
    cases record
    obtain rfl := hkind
    rfl
  constructor
  · rw [isSpecialPointee, hdesugared, hkind]
    rfl
  · rw [unnamedRecord?, hdesugared, hkind]
    simp [hname]

namespace Wrapping

theorem plain_around (layer : Wrapping) {part : TypeHandle} (h : part.Plain) : (layer.around part).Plain := by
  cases layer with
  | pointer _ | incompleteArray _ | constantArray _ => exact ⟨rfl, rfl⟩
  | sugar _ _ => exact ⟨h.pointee, h.named⟩

theorem plain_wrap (layers : List Wrapping) {handle : TypeHandle} (h : handle.Plain) : (wrap layers handle).Plain := by
  induction layers with
  | nil => exact h
  | cons layer rest ih => exact layer.plain_around ih

variable (lookup : Lookup) (visiting : List RecordKey) (scope : Scope)

/-- One layer is written around what is inside, and this is resolved at its place. -/
theorem encoding_around (layer : Wrapping) {part : TypeHandle} (h : part.Plain) :
    ((layer.around part).resolveIn lookup visiting scope none).encoding =
      layer.write (part.resolveIn lookup visiting (layer.inside scope) none).encoding := by
  cases layer with
  | pointer shell =>
    exact congrArg ResolvedType.encoding (TypeHandle.resolveIn_pointer lookup visiting scope none shell h.pointee)
  | incompleteArray shell => rfl
  | constantArray shell =>
    exact congrArg ResolvedType.encoding (TypeHandle.resolveIn_array lookup visiting scope none shell part)
  | sugar way shell =>
    cases shell
    unfold around
    conv =>
      lhs
      unfold TypeHandle.resolveIn
    simp only [h.named]
    rfl

/-- All layers are written around what is under them. -/
theorem encoding_wrap (layers : List Wrapping) {handle : TypeHandle} (h : handle.Plain) :
    ((wrap layers handle).resolveIn lookup visiting scope none).encoding =
      writeAll layers (handle.resolveIn lookup visiting (innermost scope layers) none).encoding := by
  induction layers generalizing scope with
  | nil => rfl
  | cons layer rest ih =>
    have hlayer := layer.encoding_around lookup visiting scope (plain_wrap rest h)
    rw [ih] at hlayer
    exact hlayer

theorem write_inj (layer : Wrapping) {first second : Encoding} :
    layer.write first = layer.write second ↔ first = second := by
  cases layer <;> simp [write]

theorem writeAll_inj (layers : List Wrapping) {first second : Encoding} :
    writeAll layers first = writeAll layers second ↔ first = second := by
  induction layers with
  | nil => rfl
  | cons layer rest ih => exact layer.write_inj.trans ih

/-! ## Counting pointers -/

theorem inRecord_innermost (layers : List Wrapping) : (innermost scope layers).inRecord = scope.inRecord := by
  induction layers generalizing scope with
  | nil => rfl
  | cons layer rest ih =>
    refine (ih (layer.inside scope)).trans ?_
    cases layer <;> rfl

/-- The count is exact up to the last pointer that is counted, and stays there. -/
theorem depth_innermost (layers : List Wrapping) (h : scope.depth ≤ Scope.maxDepth) :
    (innermost scope layers).depth = min (scope.depth + pointers layers) Scope.maxDepth := by
  induction layers generalizing scope with
  | nil => exact (Nat.min_eq_left h).symm
  | cons layer rest ih =>
    have hstep : (layer.inside scope).depth =
        min (scope.depth + if layer.isPointer then 1 else 0) Scope.maxDepth := by
      unfold inside
      split
      · rfl
      · exact (Nat.min_eq_left h).symm
    have hrest := ih (layer.inside scope) (hstep ▸ Nat.min_le_right _ _)
    rw [pointers, List.countP_cons]
    change (innermost (layer.inside scope) rest).depth = _
    rw [hrest, hstep, pointers]
    omega

/-- The place under layers around a declared type opens records behind one pointer at most. -/
theorem opensRecords_outer (layers : List Wrapping) :
    (innermost .outer layers).opensRecords = true ↔ pointers layers ≤ 1 := by
  rw [Scope.opensRecords_iff, depth_innermost .outer layers (Nat.zero_le _), inRecord_innermost]
  simp only [Scope.outer, Scope.maxDepth, and_true]
  omega

/-- The place under layers around a field opens records behind no pointer. -/
theorem opensRecords_field (layers : List Wrapping) :
    (innermost .field layers).opensRecords = true ↔ pointers layers = 0 := by
  rw [Scope.opensRecords_iff, depth_innermost .field layers (Nat.zero_le _), inRecord_innermost]
  simp only [Scope.field, Scope.maxDepth, Bool.true_eq_false, and_false, or_false]
  omega

end Wrapping

/-! ## Records under layers -/

/-- A record is written differently with its members and without. -/
theorem Encoding.record_some_ne_none (kind : RecordKind) (name : String) (members : List Encoding) :
    Encoding.record kind name (some members) ≠ Encoding.record kind name none := by
  intro h
  have hlength := congrArg List.length h
  simp [Encoding.record] at hlength

/-- A named record with fields, where no record is open. -/
theorem TypeHandle.encoding_resolveIn_named (lookup : Lookup) (scope : Scope) {record : TypeHandle} {kind : RecordKind}
    (hkind : record.kind = .record kind) (hname : Naming.isAnonymous (Naming.ofRecord record.spelling) = false)
    (hfields : record.fields ≠ []) :
    let name := Naming.ofRecord record.spelling
    (record.resolveIn lookup [] scope none).encoding =
      if scope.opensRecords then .record kind name (some (memberEncodings lookup [⟨kind, name⟩] record.fields))
      else .record kind name none := by
  obtain ⟨_, spelling, _, _, _, _, fields, _, _, _, _⟩ := record
  obtain rfl := hkind
  have hkey : recordKeyOf kind spelling = ⟨kind, Naming.ofRecord spelling⟩ := by
    rw [recordKeyOf, hname]
    rfl
  unfold resolveIn
  simp [Lookup.recordEncoding, hkey, hfields]

/-- One of two different encodings is written around, as a condition says. -/
theorem Wrapping.writeAll_ite_iff (layers : List Wrapping) (opens : Prop) [Decidable opens] {opened bare : Encoding}
    (h : opened ≠ bare) :
    (writeAll layers (if opens then opened else bare) = writeAll layers opened ↔ opens) ∧
      (writeAll layers (if opens then opened else bare) = writeAll layers bare ↔ ¬opens) := by
  rw [writeAll_inj, writeAll_inj]
  by_cases hopens : opens <;> simp [hopens, h, h.symm]

/-- **A named record with fields under any layers** is written with its members if and only if at most one of the layers
counts as a pointer, and as a field if and only if none does.  Otherwise it is written bare.  Its members are those
that it has while it is open itself.  There is no bound on the number of layers. -/
theorem Wrapping.encoding_wrap_record (lookup : Lookup) (layers : List Wrapping) {record : TypeHandle}
    {kind : RecordKind} (hkind : record.kind = .record kind)
    (hname : Naming.isAnonymous (Naming.ofRecord record.spelling) = false) (hfields : record.fields ≠ []) :
    let name := Naming.ofRecord record.spelling
    let members := record.fields.map (·.type.resolveIn lookup [⟨kind, name⟩] .field none |>.encoding)
    let opened := Encoding.record kind name (some members)
    let bare := Encoding.record kind name none
    let type := (wrap layers record).resolve lookup none
    let memberType := (wrap layers record).resolveMember lookup none
    (type.encoding = writeAll layers opened ↔ pointers layers ≤ 1) ∧
      (type.encoding = writeAll layers bare ↔ ¬pointers layers ≤ 1) ∧
      (memberType.encoding = writeAll layers opened ↔ pointers layers = 0) ∧
      (memberType.encoding = writeAll layers bare ↔ pointers layers ≠ 0) := by
  intro name members opened bare type memberType
  have hmembers : TypeHandle.memberEncodings lookup [⟨kind, name⟩] record.fields = members :=
    TypeHandle.memberEncodings_eq_map lookup _ record.fields
  have hwritten : ∀ scope : Scope, ((wrap layers record).resolveIn lookup [] scope none).encoding =
      writeAll layers (if (innermost scope layers).opensRecords then opened else bare) := by
    intro scope
    rw [encoding_wrap lookup [] scope layers (TypeHandle.plain_record hkind hname),
      TypeHandle.encoding_resolveIn_named lookup _ hkind hname hfields, hmembers]
  have hdiffer : opened ≠ bare := Encoding.record_some_ne_none kind name members
  have htype : type.encoding = writeAll layers (if pointers layers ≤ 1 then opened else bare) := by
    simp only [type, TypeHandle.resolve_eq, hwritten, opensRecords_outer]
  have hmemberType : memberType.encoding = writeAll layers (if pointers layers = 0 then opened else bare) := by
    simp only [memberType, TypeHandle.resolveMember_eq, hwritten, opensRecords_field]
  rw [htype, hmemberType]
  obtain ⟨hopened, hbare⟩ := writeAll_ite_iff layers (pointers layers ≤ 1) hdiffer
  obtain ⟨hmemberOpened, hmemberBare⟩ := writeAll_ite_iff layers (pointers layers = 0) hdiffer
  exact ⟨hopened, hbare, hmemberOpened, hmemberBare⟩

/-- An array of pointers to points, under sugar, and the same behind more pointers than are counted. -/
theorem Wrapping.encoding_wrap_record_grid :
    let coordinate : TypeHandle := { kind := .scalar .double }
    let point : TypeHandle :=
      { kind := .record .struct, spelling := "struct Point", fields := [⟨"x", coordinate⟩, ⟨"y", coordinate⟩] }
    let grid : List Wrapping :=
      [.sugar .synonym { kind := default, spelling := "Grid" }, .constantArray { kind := default, size := some 4 },
        .pointer default, .sugar .elaborated default]
    let distant : List Wrapping := List.replicate 300 (.incompleteArray default) ++ grid
    (point.kind = .record .struct ∧ Naming.isAnonymous (Naming.ofRecord point.spelling) = false ∧
        point.fields ≠ []) ∧
      ((wrap grid point).resolve .empty none).encoding = "[4^{Point=dd}]".toList ∧
      ((wrap grid point).resolveMember .empty none).encoding = "[4^{Point}]".toList ∧
      Scope.maxDepth < pointers distant ∧
      ((wrap distant point).resolve .empty none).encoding = List.replicate 300 '^' ++ "[4^{Point}]".toList := by
  intro coordinate point grid distant
  have hkind : point.kind = .record .struct := rfl
  have hname : Naming.isAnonymous (Naming.ofRecord point.spelling) = false := by decide +kernel
  have hfields : point.fields ≠ [] := List.cons_ne_nil _ _
  obtain ⟨hopened, -, -, hmemberBare⟩ := encoding_wrap_record .empty grid hkind hname hfields
  obtain ⟨-, hbare, -, -⟩ := encoding_wrap_record .empty distant hkind hname hfields
  refine ⟨⟨hkind, hname, hfields⟩, ?_, ?_, by decide +kernel, ?_⟩
  · rw [hopened.2 (by decide)]
    decide +kernel
  · rw [hmemberBare.2 (by decide)]
    decide +kernel
  · rw [hbare.2 (by decide +kernel)]
    decide +kernel

end HeaderCatalog
