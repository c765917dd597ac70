import ScriptTree.Entries
import ScriptTree.Files.Tree
import ScriptTree.Value.Basic

/-!
# The world of a run

The state that scripts read and change: the nodes by identity, the static node, the local frames,
the files being loaded and the trace. Nodes refer to each other in two ways. An entry holds a node;
the link to a parent does not, and counts only as long as the parent is held (see `World.alive`).
`getRaw_put_self` and `getRaw_put_of_ne` say what storing a value changes.
-/

set_option autoImplicit false

namespace ScriptTree

/-- The contents of a node. A node with an engine has its texts expanded and may run scripts. -/
structure Cell where
  name : Option String
  parent : Option NodeId
  entries : Entries Value
  engined : Bool

instance : Inhabited Cell := ⟨⟨none, none, [], false⟩⟩

/-- What the engine of a tree offers, and the pause between operations in milliseconds. -/
structure Engine where
  expands : Bool
  evaluates : Bool
  delay : Nat

/-- What the trace tells of. -/
inductive TraceKind where
  /-- A sequence of steps starts. -/
  | stepsStart
  /-- A step starts. -/
  | stepStart
  /-- The test of a loop was evaluated, or failed. -/
  | whileTest
  /-- An operation of a loop failed. -/
  | whileOperation
  /-- A failure goes to its handler. -/
  | exceptionHandled
  deriving DecidableEq, Repr

/-- A line of the trace, with the path of the node that it is about. -/
structure TraceEvent where
  kind : TraceKind
  path : String
  message : String
  /-- The local frames at that moment, the innermost first. -/
  frames : List NodeId
  deriving DecidableEq, Repr

/-- The state of a run. -/
structure World where
  cells : Array Cell
  engine : Engine
  /-- The node that all nodes with an engine share. -/
  static : NodeId
  /-- The local frames, the innermost first. -/
  frames : List NodeId
  /-- The files being loaded, the innermost first. -/
  loading : List String
  /-- The number of expansions under way. -/
  expansions : Nat
  /-- The trace, the last event first. -/
  trace : List TraceEvent
  files : Files.Tree
  /-- Nodes that the computation itself holds at the moment. -/
  held : List NodeId

namespace World

/-- A world with nothing but the static node. -/
def initial (engine : Engine) (files : Files.Tree) : World where
  cells := #[default]
  engine := engine
  static := ⟨0⟩
  frames := []
  loading := []
  expansions := 0
  trace := []
  files := files
  held := []

/-- The contents of a node. -/
def cell (w : World) (n : NodeId) : Cell := w.cells.getD n.index default

/-- Changes the contents of a node. -/
def modifyCell (w : World) (n : NodeId) (f : Cell → Cell) : World :=
  { w with cells := w.cells.modify n.index f }

/-- A fresh node without name, parent and entries. -/
def create (w : World) (engined : Bool) : NodeId × World :=
  (⟨w.cells.size⟩, { w with cells := w.cells.push ⟨none, none, [], engined⟩ })

/-- The value stored under a key. -/
def getRaw (w : World) (n : NodeId) (key : String) : Option Value := (w.cell n).entries.get? key

/-- The node holds the key. -/
def containsKey (w : World) (n : NodeId) (key : String) : Bool := (w.cell n).entries.contains key

/-- The keys of a node in order. -/
def keys (w : World) (n : NodeId) : List String := (w.cell n).entries.keys

/-- Stores a value as it is. -/
def set (w : World) (n : NodeId) (key : String) (value : Value) : World :=
  w.modifyCell n fun c => { c with entries := c.entries.insert key value }

/-- Links a node to its parent. A node is never linked to itself. -/
def setParent (w : World) (n : NodeId) (parent : Option NodeId) : World :=
  w.modifyCell n fun c => { c with parent := parent.filter (· != n) }

/-- Names a node. -/
def setName (w : World) (n : NodeId) (name : String) : World :=
  w.modifyCell n fun c => { c with name := some name }

/-- Makes a value that is a node a child of `n`; a child without a name is named after the key. -/
def adopt (w : World) (n : NodeId) (key : String) (value : Value) : World :=
  match value with
  | .node child =>
      if child = n then w
      else
        w.modifyCell child fun c =>
          { c with parent := some n, name := c.name.or (some key) }
  | _ => w

/-- Stores a value, and adopts it when it is a node. -/
def put (w : World) (n : NodeId) (key : String) (value : Value) : World :=
  (w.adopt n key value).set n key value

/-- Stores values in order. -/
def putAll (w : World) (n : NodeId) (entries : List (String × Value)) : World :=
  entries.foldl (fun w p => w.put n p.1 p.2) w

/-- Removes a key. -/
def remove (w : World) (n : NodeId) (key : String) : World :=
  w.modifyCell n fun c => { c with entries := c.entries.erase key }

/-- Removes every entry of a node. -/
def clear (w : World) (n : NodeId) : World := w.modifyCell n fun c => { c with entries := [] }

/-- Adds an event to the trace. -/
def record (w : World) (kind : TraceKind) (path message : String) : World :=
  { w with trace := ⟨kind, path, message, w.frames⟩ :: w.trace }

@[simp] theorem size_modifyCell (w : World) (n : NodeId) (f : Cell → Cell) :
    (w.modifyCell n f).cells.size = w.cells.size := by
  simp [modifyCell]

@[simp] theorem cell_modifyCell_of_ne (w : World) {n m : NodeId} (f : Cell → Cell) (h : n ≠ m) :
    (w.modifyCell n f).cell m = w.cell m := by
  have hi : n.index ≠ m.index := fun e => h (by cases n; cases m; simp_all)
  simp [modifyCell, cell, Array.getD_eq_getD_getElem?, Array.getElem?_modify, hi]

theorem cell_modifyCell_self (w : World) {n : NodeId} (f : Cell → Cell)
    (h : n.index < w.cells.size) : (w.modifyCell n f).cell n = f (w.cell n) := by
  simp [modifyCell, cell, Array.getD_eq_getD_getElem?, h, Array.getElem_modify]

theorem cell_create_self (w : World) (engined : Bool) :
    (w.create engined).2.cell (w.create engined).1 = ⟨none, none, [], engined⟩ := by
  simp [create, cell, Array.getD_eq_getD_getElem?]

theorem cell_create_of_lt (w : World) (engined : Bool) {n : NodeId}
    (h : n.index < w.cells.size) : (w.create engined).2.cell n = w.cell n := by
  have hne : n.index ≠ w.cells.size := by omega
  simp [create, cell, Array.getD_eq_getD_getElem?, Array.getElem?_push, hne]

theorem getRaw_set_self (w : World) {n : NodeId} (key other : String) (value : Value)
    (h : n.index < w.cells.size) :
    (w.set n key value).getRaw n other = if key == other then some value else w.getRaw n other := by
  rw [getRaw, set, cell_modifyCell_self w _ h]
  exact Entries.get?_insert _ _ _ _

theorem getRaw_set_of_ne (w : World) {n m : NodeId} (key other : String) (value : Value)
    (h : n ≠ m) : (w.set n key value).getRaw m other = w.getRaw m other := by
  rw [getRaw, set, cell_modifyCell_of_ne w _ h, getRaw]

theorem getRaw_adopt (w : World) (n m : NodeId) (key other : String) (value : Value) :
    (w.adopt n key value).getRaw m other = w.getRaw m other := by
  unfold adopt
  split
  · rename_i child
    split
    · rfl
    · by_cases hm : child = m
      · subst hm
        by_cases hlt : child.index < w.cells.size
        · rw [getRaw, cell_modifyCell_self w _ hlt, getRaw]
        · simp [getRaw, cell, modifyCell, Array.getD_eq_getD_getElem?, hlt]
      · rw [getRaw, cell_modifyCell_of_ne w _ hm, getRaw]
  · rfl

theorem size_adopt (w : World) (n : NodeId) (key : String) (value : Value) :
    (w.adopt n key value).cells.size = w.cells.size := by
  unfold adopt
  split
  · split <;> simp
  · rfl

/-- Storing and adopting changes one entry, that of the key. -/
theorem getRaw_put_self (w : World) {n : NodeId} (key other : String) (value : Value)
    (h : n.index < w.cells.size) :
    (w.put n key value).getRaw n other = if key == other then some value else w.getRaw n other := by
  rw [put, getRaw_set_self _ _ _ _ (by rw [size_adopt]; exact h), getRaw_adopt]

theorem getRaw_put_of_ne (w : World) {n m : NodeId} (key other : String) (value : Value)
    (h : n ≠ m) : (w.put n key value).getRaw m other = w.getRaw m other := by
  rw [put, getRaw_set_of_ne _ _ _ _ h, getRaw_adopt]

end World

end ScriptTree
