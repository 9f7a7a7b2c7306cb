/-!
# Paths

A path is text in which `/` separates the steps that lead to a place. Joining adds one separator and
normalises nothing. The step `.` stays where it is, so it names no place of its own; the components,
the parent and the extension of a path go by the steps without it.
-/

namespace TreePanel.Path

/-- The pieces of a path between separators. -/
def pieces : List Char → List (List Char)
  | [] => [[]]
  | c :: rest =>
    if c = '/' then [] :: pieces rest
    else
      match pieces rest with
      | [] => [[c]]
      | piece :: others => (c :: piece) :: others

/-- The steps of a path: the pieces that are not empty. -/
def steps (path : String) : List String :=
  ((pieces path.toList).filter fun piece => piece ≠ []).map String.ofList

/-- The components of a path: the steps that name a place. -/
def components (path : String) : List String := (steps path).filter fun step => step ≠ "."

/-- Whether a path ends in a separator. -/
def endsInSeparator (path : String) : Bool := path.toList.getLast? == some '/'

/-- `name` below `dir`; a separator is added unless `dir` is empty or ends in one. -/
def join (dir name : String) : String :=
  if dir.isEmpty || endsInSeparator dir then dir ++ name else dir ++ "/" ++ name

/-- Drop the last component and the separators before it, for a path in reverse. -/
def dropLast (reversed : List Char) : List Char :=
  trim ((trim reversed).dropWhile (· ≠ '/'))
where
  /-- Drop final separators, and final `.` components with them. -/
  trim : List Char → List Char
    | [] => []
    | [c] => [c]
    | c :: d :: rest =>
      if c = '/' then trim (d :: rest)
      else if c = '.' ∧ d = '/' then trim (d :: rest)
      else c :: d :: rest

/-- The path without its last component. -/
def parent (path : String) : String :=
  String.ofList (dropLast path.toList.reverse).reverse

/-- The paths of a place and of all places around it, the innermost first. The names that lead to
the place come in reverse. -/
def outward : List String → List String
  | [] => []
  | name :: around => "/".intercalate (name :: around).reverse :: outward around

/-- A path and those of the places around it, the innermost first. Nothing is around the root. -/
def ancestors (path : String) : List String :=
  match (components path).reverse with
  | [] => []
  | _ :: around => path :: outward around

/-- The last component, unless the path ends in `..` or has none. -/
def fileName? (path : String) : Option String :=
  match (components path).getLast? with
  | some name => if name = ".." then none else some name
  | none => none

/-- What follows the last dot of the last component. A component without a dot, or whose only dot
comes first, has no extension. -/
def extension? (path : String) : Option String := do
  let name ← fileName? path
  let reversed := name.toList.reverse
  let after := reversed.takeWhile (· ≠ '.')
  let before := (reversed.dropWhile (· ≠ '.')).drop 1
  if before.isEmpty then none else some (String.ofList after.reverse)

end TreePanel.Path
