import ScriptTree.Text.Search
import ScriptTree.World.Basic

/-!
# Parents and paths

A node is alive while the run holds it or a node that is alive has it in an entry. The parent of a
node is the one it is linked to, as long as that is alive. `lineage` is the node with its parent,
the parent's parent and so on, and `path` the names on the way down from below the root.
-/

set_option autoImplicit false

namespace ScriptTree.World

/-- The nodes that the run itself holds: the static node, the frames and those of a computation
under way. -/
def holders (w : World) : List NodeId := w.static :: (w.frames ++ w.held)

/-- The nodes that the entries of a cell refer to. -/
def references (c : Cell) : List NodeId := c.entries.flatMap fun p => p.2.nodes

/-- Marks nodes among as many as `size`. -/
def marks (size : Nat) (nodes : List NodeId) : Array Bool :=
  nodes.foldl (fun marked n => marked.setIfInBounds n.index true) (Array.replicate size false)

/-- What stays when only the marked nodes count: the nodes that are held, and those that an entry
of a marked node refers to. -/
def survivors (w : World) (marked : Array Bool) : Array Bool :=
  marks w.cells.size <| w.holders ++
    (List.range w.cells.size).flatMap fun i =>
      if marked.getD i false then references (w.cell ⟨i⟩) else []

/-- Drops nodes that nothing marked refers to until none is left, or the fuel is. -/
def settle (w : World) : Nat → Array Bool → Array Bool
  | 0, marked => marked
  | fuel + 1, marked =>
      let next := w.survivors marked
      -- A round that drops nothing is the last one.
      if next == marked then marked else w.settle fuel next

/-- The nodes that are alive. Every round but the last drops a node, so there are at most as many
rounds as nodes; nodes that refer to each other in a circle stay. -/
def living (w : World) : Array Bool := w.settle w.cells.size (Array.replicate w.cells.size true)

/-- Something still holds the node. -/
def alive (w : World) (n : NodeId) : Bool := w.holders.contains n || w.living.getD n.index false

/-- The parent of a node. -/
def parent? (w : World) (n : NodeId) : Option NodeId := (w.cell n).parent.filter w.alive

/-- The parent of a node, its parent and so on, at most as many as the fuel. A node that was passed
already ends the list. -/
def ancestors (w : World) : Nat → List NodeId → NodeId → List NodeId
  | 0, _, _ => []
  | fuel + 1, passed, n =>
      match w.parent? n with
      | none => []
      | some p => if p ∈ passed then [] else p :: w.ancestors fuel (p :: passed) p

/-- The node, its parent, the parent's parent and so on up to the root. -/
def lineage (w : World) (n : NodeId) : List NodeId := n :: w.ancestors w.cells.size [n] n

/-- The last node of the lineage. -/
def root (w : World) (n : NodeId) : NodeId := (w.lineage n).getLast (by simp [lineage])

/-- The node has no parent. -/
def isRoot (w : World) (n : NodeId) : Bool := (w.parent? n).isNone

/-- The name of a node as a part of a path; nothing when it has none. -/
def pathName (w : World) (n : NodeId) : List Char := ((w.cell n).name.getD "").toList

/-- The names from below the root down to the node, with points between them. The root itself has
the empty path. -/
def path (w : World) (n : NodeId) : String :=
  String.ofList (Text.join ['.'] ((w.lineage n).dropLast.reverse.map w.pathName))

/-- The nearest node of the lineage that holds the key. -/
def holder? (w : World) (n : NodeId) (key : String) : Option NodeId :=
  (w.lineage n).find? fun m => w.containsKey m key

theorem alive_of_mem_holders {w : World} {n : NodeId} (h : n ∈ w.holders) : w.alive n = true := by
  simp [alive, h]

theorem lineage_of_parent?_eq_none {w : World} {n : NodeId} (h : w.parent? n = none) :
    w.lineage n = [n] := by
  cases hs : w.cells.size <;> simp [lineage, ancestors, h, hs]

/-- A node without a parent has the empty path. -/
theorem path_of_parent?_eq_none {w : World} {n : NodeId} (h : w.parent? n = none) :
    w.path n = "" := by
  simp [path, lineage_of_parent?_eq_none h, Text.join]

end ScriptTree.World
