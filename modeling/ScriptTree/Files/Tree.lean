import ScriptTree.Entries
import ScriptTree.Files.Path

/-!
# Trees of files

A read-only tree of directories and files with a working directory. `Tree.locate` follows a path
name by name and gives the absolute names of the place it leads to, so two spellings of one place
are located alike.
-/

set_option autoImplicit false

namespace ScriptTree.Files

/-- A place in a tree of files. A file whose bytes are no text has no content. -/
inductive Place where
  | file (content : Option String)
  | directory (members : List (String × Place))

instance : Inhabited Place := ⟨.directory []⟩

/-- Why a path cannot be followed or read. -/
inductive Fault where
  | missing
  | notDirectory
  | isDirectory
  | notText
  deriving DecidableEq, Repr

/-- The sentence for a path that cannot be followed or read. -/
def Fault.message : Fault → String
  | .missing => "No such file or directory (os error 2)"
  | .notDirectory => "Not a directory (os error 20)"
  | .isDirectory => "Is a directory (os error 21)"
  | .notText => "stream did not contain valid UTF-8"

/-- A tree of files and the absolute names of its working directory. -/
structure Tree where
  root : Place
  working : List String

namespace Place

/-- The member of a directory. -/
def member? (name : String) : Place → Option Place
  | .file _ => none
  | .directory members => Entries.get? members name

/-- The place is a directory. -/
def isDirectory : Place → Bool
  | .file _ => false
  | .directory _ => true

/-- Puts a place under names below a directory, with new directories on the way. -/
def insert (leaf : Place) : List String → Place → Place
  | [], _ => leaf
  | name :: names, place =>
      let members := match place with
        | .directory members => members
        | .file _ => []
      let inner := ((Entries.get? members name).getD (.directory []))
      .directory (Entries.insert members name (insert leaf names inner))

mutual

/-- The number of files in a place. -/
def countFiles : Place → Nat
  | .file _ => 1
  | .directory members => countMembers members

/-- The number of files in the members of a directory. -/
def countMembers : List (String × Place) → Nat
  | [] => 0
  | (_, place) :: rest => countFiles place + countMembers rest

end

end Place

namespace Tree

/-- A tree without files. -/
def empty : Tree := ⟨.directory [], []⟩

/-- The place with the given absolute names. -/
def place? (t : Tree) (names : List String) : Option Place :=
  names.foldlM (fun place name => place.member? name) t.root

/-- Follows one part of a path from a place. -/
def follow (t : Tree) (names : List String) (part : String) : Except Fault (List String) :=
  match t.place? names with
  | none => .error .missing
  | some place =>
      if !place.isDirectory then .error .notDirectory
      else if part == "" || part == "." then .ok names
      else if part == ".." then .ok names.dropLast
      else if (place.member? part).isSome then .ok (names ++ [part])
      else .error .missing

/-- The absolute names of the place that a path leads to. -/
def locate (t : Tree) (path : String) : Except Fault (List String) :=
  if path.isEmpty then .error .missing
  else (segments path).foldlM t.follow (if isAbsolute path then [] else t.working)

/-- The path leads to a place. -/
def hasPlace (t : Tree) (path : String) : Bool :=
  match t.locate path with
  | .ok _ => true
  | .error _ => false

/-- The path leads to a directory. -/
def hasDirectory (t : Tree) (path : String) : Bool :=
  match t.locate path with
  | .ok names => ((t.place? names).map Place.isDirectory).getD false
  | .error _ => false

/-- The text of the file that a path leads to. -/
def read (t : Tree) (path : String) : Except Fault String := do
  let names ← t.locate path
  match t.place? names with
  | some (.file (some text)) => .ok text
  | some (.file none) => .error .notText
  | some (.directory _) => .error .isDirectory
  | none => .error .missing

/-- More loads than this one inside another would load a file twice. -/
def loadLimit (t : Tree) : Nat := t.root.countFiles + 1

end Tree

end ScriptTree.Files
