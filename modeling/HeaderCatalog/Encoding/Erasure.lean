import HeaderCatalog.Encoding.Token

set_option autoImplicit false

/-!
# Erasing qualifiers and offsets

The erased form of an encoding says what is passed and not how: qualifiers and frame offsets are gone, pointer marks
stay, and the signature inside a block is erased in turn.  Records, unions and arrays are kept letter by letter.
-/

namespace HeaderCatalog.Encoding

/-- The pointer marks of a value. -/
def pointerMarks (value : Encoding) : Encoding := (value.takeWhile isLead).filter (· == '^')

/-- A value without its qualifiers and pointer marks. -/
def body (value : Encoding) : Encoding := value.dropWhile isLead

/-- What stands between the angle brackets of a block with a signature. -/
def blockSignature? : Encoding → Option Encoding
  | '@' :: '?' :: '<' :: rest => if rest.getLast? = some '>' then some rest.dropLast else none
  | _ => none

/-- A block around a signature. -/
def blockOf (signature : Encoding) : Encoding := '@' :: '?' :: '<' :: signature ++ ['>']

/-- A signature is shorter than the block around it. -/
theorem length_blockSignature? {s inner : Encoding} (h : blockSignature? s = some inner) :
    inner.length < s.length := by
  unfold blockSignature? at h
  split at h
  · split at h
    · simp only [Option.some.injEq] at h
      subst h
      simp only [List.length_dropLast, List.length_cons]
      omega
    · simp at h
  · simp at h

/-- The body of a value is no longer than the value. -/
theorem length_body_le (value : Encoding) : (body value).length ≤ value.length :=
  (List.dropWhile_sublist isLead).length_le

/-- The erased form of an encoding. -/
def erase (s : Encoding) : Encoding :=
  (tokens s).attach.flatMap fun ⟨value, _⟩ =>
    pointerMarks value ++
      match _signature : blockSignature? (body value) with
      | some signature => blockOf (erase signature)
      | none => body value
termination_by s.length
decreasing_by
  have h₁ := length_blockSignature? _signature
  have h₂ := length_body_le value
  have h₃ := length_le_of_mem_tokens ‹value ∈ tokens s›
  omega

/-- The erased form of one value. -/
def eraseValue (value : Encoding) : Encoding :=
  pointerMarks value ++
    match blockSignature? (body value) with
    | some signature => blockOf (erase signature)
    | none => body value

/-- An encoding is erased value by value. -/
theorem erase_eq (s : Encoding) : erase s = (tokens s).flatMap eraseValue := by
  rw [erase, List.flatMap_subtype (g := eraseValue), List.unattach_attach]
  intro value _
  dsimp only [eraseValue]
  congr 1
  split <;> simp [*]

end HeaderCatalog.Encoding
