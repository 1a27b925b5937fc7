set_option autoImplicit false

/-!
# Paths

Two questions are asked of a path: whether it lies under a directory, and which framework bundle it lies in.  Both are
answered component by component, so that `/SDK2/a.h` does not lie under `/SDK`, and a name with `.framework` in the
middle of a component is no bundle.
-/

namespace HeaderCatalog.Path

/-- The components of a path: a slash for the root, then the names.  Repeated and trailing slashes name nothing, and
neither does a dot, except the one a relative path may start with. -/
def components (path : List Char) : List (List Char) :=
  let names := path.splitOn '/'
  let start := match names with
    | [] :: _ :: _ => [['/']]
    | ['.'] :: _ => [['.']]
    | _ => []
  start ++ names.filter fun name => name ≠ [] && name ≠ ['.']

/-- Whether a path lies under a directory, or is it.  The empty path is no directory. -/
def isUnder (directory path : String) : Bool :=
  !directory.isEmpty && (components directory.toList).isPrefixOf (components path.toList)

/-- The ending of a framework bundle. -/
def bundleEnding : List Char := ".framework".toList

/-- The name of the framework whose bundle a component is. -/
def bundleName? (component : List Char) : Option (List Char) :=
  let name := component.take (component.length - bundleEnding.length)
  if name ≠ [] ∧ component = name ++ bundleEnding then some name else none

/-- The name of the innermost framework bundle that a path enters: the last component ends no directory and is not
asked. -/
def framework? (path : String) : Option String :=
  (((path.toList.splitOn '/').dropLast.filterMap bundleName?).getLast?).map String.ofList

end HeaderCatalog.Path
