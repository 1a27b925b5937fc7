set_option autoImplicit false

/-!
# Parts of a text

Taking off a given beginning, and asking whether one text holds another.
-/

namespace HeaderCatalog.Text

/-- The text after a given beginning, if it begins so. -/
def after? : List Char → List Char → Option (List Char)
  | [], s => some s
  | _ :: _, [] => none
  | p :: ps, c :: s => if p = c then after? ps s else none

/-- A text splits into the given beginning and what comes after it. -/
theorem eq_append_of_after? {p s rest : List Char} (h : after? p s = some rest) : s = p ++ rest := by
  induction p generalizing s with
  | nil => simpa [after?] using h
  | cons c ps ih =>
    cases s with
    | nil => simp [after?] at h
    | cons d s =>
      rw [after?] at h
      split at h
      · next hcd => rw [hcd, ih h, List.cons_append]
      · simp at h

/-- A beginning can be taken off what it is put before. -/
@[simp] theorem after?_append (p s : List Char) : after? p (p ++ s) = some s := by
  induction p with
  | nil => rfl
  | cons c ps ih => simp [after?, ih]

/-- What comes after a beginning is shorter by its length. -/
theorem length_of_after? {p s rest : List Char} (h : after? p s = some rest) : s.length = p.length + rest.length := by
  rw [eq_append_of_after? h, List.length_append]

/-- Whether a text holds another one. -/
def holds (part : List Char) : List Char → Bool
  | [] => part.isEmpty
  | c :: rest => part.isPrefixOf (c :: rest) || holds part rest

end HeaderCatalog.Text
