import ScriptTree.Text.Search

/-!
# Paths

Paths are kept as written. Two paths are the same (`samePath`) when their components are, whatever
the spelling of their separators. An absolute name is not joined to a directory.
-/

set_option autoImplicit false

namespace ScriptTree.Files

/-- The path starts at the root. -/
def isAbsolute (path : String) : Bool := path.toList.head? == some '/'

/-- The parts of a path between slashes, empty ones included. -/
def segments (path : String) : List String :=
  (Text.splitAt '/' path.toList).map String.ofList

/-- A name seen from a directory. -/
def joinPath (directory name : String) : String :=
  if isAbsolute name || directory.isEmpty then name
  else if directory.toList.getLast? == some '/' then directory ++ name
  else directory ++ "/" ++ name

/-- The components of a path: the root when it starts there, the dot when it starts with one, and
the names that are neither empty nor a dot. -/
def components (path : String) : List String :=
  let all := segments path
  let names := all.filter fun s => s != "" && s != "."
  if isAbsolute path then "/" :: names
  else if all.head? == some "." then "." :: names
  else names

/-- The paths have the same components. -/
def samePath (a b : String) : Bool := components a == components b

/-- The path of an absolute list of names. -/
def absolute (names : List String) : String :=
  "/" ++ String.ofList (Text.join ['/'] (names.map String.toList))

/-- The directory of an absolute list of names; of the root itself the dot. -/
def parentPath (names : List String) : String :=
  if names.isEmpty then "." else absolute names.dropLast

/-- The part of the last name after its last point. A name has none that ends a path upwards, has
no point, or has its only point in front. -/
def extension? (path : String) : Option String :=
  match (components path).getLast? with
  | none => none
  | some name =>
      if name == "/" || name == "." || name == ".." then none
      else
        match Text.splitAt '.' name.toList with
        | [] | [_] => none
        | [[], _] => none
        | parts => parts.getLast?.map String.ofList

end ScriptTree.Files
