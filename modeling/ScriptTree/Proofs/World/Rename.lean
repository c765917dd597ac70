import Mathlib.Data.List.Perm.Subperm
import Mathlib.Data.List.Nodup
import ScriptTree.World.Text

/-!
# Renaming nodes

Another name for every node, in a value (`Value.rename`) and in a cell (`Cell.rename`). When two
worlds agree up to a renaming on the parents and the names of nodes, they agree on lineages and
paths (`lineage_rename`, `path_rename`), and values print alike in both (`Value.show_rename`).
-/

set_option autoImplicit false

namespace ScriptTree

mutual

/-- The value with its nodes renamed. -/
def Value.rename (f : NodeId → NodeId) : Value → Value
  | .node id => .node (f id)
  | .list items => .list (Value.renameAll f items)
  | .failure cause => .failure (cause.rename f)
  | .null => .null
  | .bool b => .bool b
  | .number n => .number n
  | .text s => .text s
  | .date d => .date d
  | .dateTime t => .dateTime t
  | .duration d => .duration d

/-- The values with their nodes renamed. -/
def Value.renameAll (f : NodeId → NodeId) : List Value → List Value
  | [] => []
  | v :: rest => v.rename f :: Value.renameAll f rest

/-- The failure with its nodes renamed. -/
def Failure.rename (f : NodeId → NodeId) : Failure → Failure
  | .returning v => .returning (v.rename f)
  | .evaluation statement cause => .evaluation statement (cause.rename f)
  | .missingFile directory name => .missingFile directory name
  | .unreadableFile path detail => .unreadableFile path detail
  | .missingDirectory path => .missingDirectory path
  | .notDirectory path => .notDirectory path
  | .invalidJson detail => .invalidJson detail
  | .invalidLiteral found => .invalidLiteral found
  | .invalidXml source detail => .invalidXml source detail
  | .invalidProperties path detail => .invalidProperties path detail
  | .invalidEntry tag text detail => .invalidEntry tag text detail
  | .circular path => .circular path
  | .typeMismatch path expected found => .typeMismatch path expected found
  | .outOfTries tries test => .outOfTries tries test
  | .script fault => .script fault
  | .noEvaluator text => .noEvaluator text

end

/-- The cell with its nodes renamed. -/
def Cell.rename (f : NodeId → NodeId) (c : Cell) : Cell where
  name := c.name
  parent := c.parent.map f
  entries := c.entries.mapValues (Value.rename f)
  engined := c.engined

variable {f : NodeId → NodeId}

mutual

theorem Value.nodes_rename (f : NodeId → NodeId) : ∀ v : Value, (v.rename f).nodes = v.nodes.map f
  | .node _ => rfl
  | .list items => Value.allNodes_renameAll f items
  | .failure cause => Failure.nodes_rename f cause
  | .null | .bool _ | .number _ | .text _ | .date _ | .dateTime _ | .duration _ => rfl

theorem Value.allNodes_renameAll (f : NodeId → NodeId) :
    ∀ items : List Value, Value.allNodes (Value.renameAll f items) = (Value.allNodes items).map f
  | [] => rfl
  | v :: rest => by
      rw [Value.renameAll, Value.allNodes, Value.allNodes, Value.nodes_rename f v,
        Value.allNodes_renameAll f rest, List.map_append]

theorem Failure.nodes_rename (f : NodeId → NodeId) :
    ∀ cause : Failure, (cause.rename f).nodes = cause.nodes.map f
  | .returning v => Value.nodes_rename f v
  | .evaluation _ cause => Failure.nodes_rename f cause
  | .missingFile _ _ | .unreadableFile _ _ | .missingDirectory _ | .notDirectory _
  | .invalidJson _ | .invalidLiteral _ | .invalidXml _ _ | .invalidProperties _ _
  | .invalidEntry _ _ _ | .circular _ | .typeMismatch _ _ _ | .outOfTries _ _ | .script _
  | .noEvaluator _ => rfl

end

mutual

/-- A renaming that leaves the nodes of a value alone leaves the value alone. -/
theorem Value.rename_eq_self : ∀ v : Value, (∀ x ∈ v.nodes, f x = x) → v.rename f = v
  | .node _, h => congrArg Value.node (h _ List.mem_cons_self)
  | .list items, h => congrArg Value.list (Value.renameAll_eq_self items h)
  | .failure cause, h => congrArg Value.failure (Failure.rename_eq_self cause h)
  | .null, _ | .bool _, _ | .number _, _ | .text _, _ | .date _, _ | .dateTime _, _
  | .duration _, _ => rfl

theorem Value.renameAll_eq_self :
    ∀ items : List Value, (∀ x ∈ Value.allNodes items, f x = x) → Value.renameAll f items = items
  | [], _ => rfl
  | v :: rest, h => by
      rw [Value.renameAll, Value.rename_eq_self v fun x hx => h x (List.mem_append_left _ hx),
        Value.renameAll_eq_self rest fun x hx => h x (List.mem_append_right _ hx)]

theorem Failure.rename_eq_self :
    ∀ cause : Failure, (∀ x ∈ cause.nodes, f x = x) → cause.rename f = cause
  | .returning v, h => congrArg Failure.returning (Value.rename_eq_self v h)
  | .evaluation statement cause, h =>
      congrArg (Failure.evaluation statement) (Failure.rename_eq_self cause h)
  | .missingFile _ _, _ | .unreadableFile _ _, _ | .missingDirectory _, _ | .notDirectory _, _
  | .invalidJson _, _ | .invalidLiteral _, _ | .invalidXml _ _, _ | .invalidProperties _ _, _
  | .invalidEntry _ _ _, _ | .circular _, _ | .typeMismatch _ _ _, _ | .outOfTries _ _, _
  | .script _, _ | .noEvaluator _, _ => rfl

end

/-- The nodes of a list are those of its items. -/
theorem Value.mem_allNodes {items : List Value} {x : NodeId} :
    x ∈ Value.allNodes items ↔ ∃ v ∈ items, x ∈ v.nodes := by
  induction items with
  | nil => simp [Value.allNodes]
  | cons v rest ih => simp [Value.allNodes, ih]

theorem Value.renameAll_eq_map (f : NodeId → NodeId) (items : List Value) :
    Value.renameAll f items = items.map (Value.rename f) := by
  induction items with
  | nil => rfl
  | cons v rest ih => rw [Value.renameAll, ih, List.map_cons]

/-! ## Entries -/

namespace Entries

variable {α β : Type}

theorem get?_mapValues (g : α → β) (entries : Entries α) (key : String) :
    (entries.mapValues g).get? key = (entries.get? key).map g := by
  induction entries with
  | nil => rfl
  | cons p rest ih =>
      obtain ⟨k, v⟩ := p
      show get? ((k, g v) :: mapValues g rest) key = _
      rw [get?_cons, get?_cons, ih]
      by_cases hk : (k == key) = true
      · rw [if_pos hk, if_pos hk]
        rfl
      · rw [if_neg hk, if_neg hk]

theorem contains_mapValues (g : α → β) (entries : Entries α) (key : String) :
    (entries.mapValues g).contains key = entries.contains key := by
  rw [contains, contains, get?_mapValues, Option.isSome_map]

theorem insert_mapValues (g : α → β) (entries : Entries α) (key : String) (value : α) :
    (entries.mapValues g).insert key (g value) = (entries.insert key value).mapValues g := by
  induction entries with
  | nil => rfl
  | cons p rest ih =>
      obtain ⟨k, v⟩ := p
      show insert ((k, g v) :: mapValues g rest) key (g value) = _
      rw [insert, insert]
      by_cases hk : (k == key) = true
      · rw [if_pos hk, if_pos hk]
        rfl
      · rw [if_neg hk, if_neg hk, ih]
        rfl

theorem mem_insert {entries : Entries α} {key : String} {value : α} {p : String × α}
    (h : p ∈ entries.insert key value) : p = (key, value) ∨ p ∈ entries := by
  induction entries with
  | nil => exact .inl (List.mem_singleton.mp h)
  | cons q rest ih =>
      obtain ⟨k, v⟩ := q
      rw [insert] at h
      split at h
      · rename_i hk
        rw [← eq_of_beq hk]
        obtain heq | hmem := List.mem_cons.mp h
        · exact .inl heq
        · exact .inr (List.mem_cons_of_mem _ hmem)
      · obtain heq | hmem := List.mem_cons.mp h
        · exact .inr (heq ▸ List.mem_cons_self)
        · obtain heq | hmem := ih hmem
          · exact .inl heq
          · exact .inr (List.mem_cons_of_mem _ hmem)

theorem nodup_keys_insert {entries : Entries α} (h : entries.keys.Nodup) (key : String)
    (value : α) : (entries.insert key value).keys.Nodup := by
  by_cases hmem : key ∈ entries.keys
  · rw [keys_insert_of_mem entries value hmem]
    exact h
  · rw [insert_of_not_mem entries value hmem, keys, List.map_append]
    exact List.nodup_append.mpr ⟨h, List.nodup_singleton key, by
      intro k hk k' hk' heq
      rw [List.map_singleton, List.mem_singleton] at hk'
      subst hk' heq
      exact hmem hk⟩

theorem mem_of_get?_eq_some {entries : Entries α} {key : String} {value : α}
    (h : entries.get? key = some value) : (key, value) ∈ entries := by
  induction entries with
  | nil => cases h
  | cons p rest ih =>
      obtain ⟨k, v⟩ := p
      rw [get?_cons] at h
      split at h
      · rename_i hk
        injection h with hv
        rw [← eq_of_beq hk, hv]
        exact List.mem_cons_self
      · exact List.mem_cons_of_mem _ (ih h)

theorem get?_append (entries more : Entries α) (key : String) :
    get? (entries ++ more) key = (entries.get? key).or (get? more key) := by
  induction entries with
  | nil => rfl
  | cons p rest ih =>
      obtain ⟨k, v⟩ := p
      rw [List.cons_append, get?_cons, get?_cons, ih]
      split <;> rfl

end Entries

namespace World

theorem references_rename (f : NodeId → NodeId) (c : Cell) :
    references (c.rename f) = (references c).map f := by
  show (c.entries.mapValues (Value.rename f)).flatMap (fun p => p.2.nodes) = _
  rw [Entries.mapValues, List.flatMap_map, references, List.map_flatMap]
  exact congrArg (List.flatMap · c.entries) (funext fun p => Value.nodes_rename f p.2)

/-! ## Lineages -/

theorem index_injective : Function.Injective NodeId.index := by
  rintro ⟨i⟩ ⟨j⟩ rfl
  rfl

/-- The indices of nodes of a world are in its range. -/
theorem map_index_subset {size : Nat} {nodes : List NodeId}
    (hrange : ∀ x ∈ nodes, x.index < size) : nodes.map NodeId.index ⊆ List.range size := by
  intro i hi
  obtain ⟨y, hy, rfl⟩ := List.mem_map.mp hi
  exact List.mem_range.mpr (hrange y hy)

/-- Different nodes of a world are no more than its nodes. -/
theorem length_le_size {size : Nat} {nodes : List NodeId} (hnodup : nodes.Nodup)
    (hrange : ∀ x ∈ nodes, x.index < size) : nodes.length ≤ size := by
  have hle := (List.subperm_of_subset (hnodup.map index_injective)
    (map_index_subset hrange)).length_le
  rwa [List.length_map, List.length_range] at hle

/-- Different nodes of a world that are as many as its nodes are all of them. -/
theorem mem_of_size_le {size : Nat} {nodes : List NodeId} (hnodup : nodes.Nodup)
    (hrange : ∀ x ∈ nodes, x.index < size) (hlength : size ≤ nodes.length) {x : NodeId}
    (hx : x.index < size) : x ∈ nodes := by
  have hperm : (nodes.map NodeId.index).Perm (List.range size) := by
    refine (List.subperm_of_subset (hnodup.map index_injective)
      (map_index_subset hrange)).perm_of_length_le ?_
    rw [List.length_map, List.length_range]
    exact hlength
  have hmem : x.index ∈ nodes.map NodeId.index := hperm.mem_iff.mpr (List.mem_range.mpr hx)
  exact (List.mem_map_of_injective index_injective).mp hmem

variable {w w' : World}

/-- The ancestors in the two worlds correspond when both have fuel for as many nodes as the first
world has: past that the next parent was passed already. -/
theorem ancestors_rename (hinjective : Function.Injective f)
    (hparent : ∀ m, w'.parent? (f m) = (w.parent? m).map f)
    (hrange : ∀ m p, w.parent? m = some p → p.index < w.cells.size) (fuel fuel' : Nat)
    {passed : List NodeId} (n : NodeId) (hnodup : passed.Nodup)
    (hpassed : ∀ x ∈ passed, x.index < w.cells.size)
    (hfuel : w.cells.size ≤ passed.length + fuel)
    (hfuel' : w.cells.size ≤ passed.length + fuel') :
    w'.ancestors fuel' (passed.map f) (f n) = (w.ancestors fuel passed n).map f := by
  induction fuel generalizing fuel' passed n with
  | zero =>
      cases fuel' with
      | zero => rfl
      | succ fuel' =>
          -- The first list has stopped for lack of fuel; the second stops at a node passed before.
          rw [ancestors, ancestors, hparent]
          cases hp : w.parent? n with
          | none => rfl
          | some p =>
              have hmem := mem_of_size_le hnodup hpassed hfuel (hrange n p hp)
              show (if f p ∈ passed.map f then [] else _) = _
              rw [if_pos (List.mem_map_of_mem hmem)]
              rfl
  | succ fuel ih =>
      cases hp : w.parent? n with
      | none =>
          cases fuel' with
          | zero => rw [ancestors, ancestors, hp]; rfl
          | succ fuel' => rw [ancestors, ancestors, hparent, hp]; rfl
      | some p =>
          have hlt := hrange n p hp
          cases fuel' with
          | zero =>
              -- All nodes have been passed, so the parent was passed too.
              have hmem := mem_of_size_le hnodup hpassed hfuel' hlt
              rw [ancestors, ancestors, hp]
              show _ = List.map f (if p ∈ passed then [] else _)
              rw [if_pos hmem]
              rfl
          | succ fuel' =>
              rw [ancestors, ancestors, hparent, hp]
              show (if f p ∈ passed.map f then [] else _) =
                List.map f (if p ∈ passed then [] else _)
              by_cases hmem : p ∈ passed
              · rw [if_pos hmem, if_pos (List.mem_map_of_mem hmem)]
                rfl
              · rw [if_neg hmem, if_neg fun h => hmem ((List.mem_map_of_injective hinjective).mp h),
                  List.map_cons, ← List.map_cons]
                rw [ih fuel' p (List.nodup_cons.mpr ⟨hmem, hnodup⟩)]
                · intro x hx
                  obtain rfl | hx := List.mem_cons.mp hx
                  · exact hlt
                  · exact hpassed x hx
                · rw [List.length_cons]
                  omega
                · rw [List.length_cons]
                  omega

theorem lineage_rename (hinjective : Function.Injective f)
    (hparent : ∀ m, w'.parent? (f m) = (w.parent? m).map f)
    (hrange : ∀ m p, w.parent? m = some p → p.index < w.cells.size)
    (hsize : w.cells.size ≤ w'.cells.size) {n : NodeId} (hn : n.index < w.cells.size) :
    w'.lineage (f n) = (w.lineage n).map f := by
  rw [lineage, lineage, List.map_cons]
  have hancestors := ancestors_rename hinjective hparent hrange w.cells.size w'.cells.size n
    (List.nodup_singleton n) (fun x hx => List.mem_singleton.mp hx ▸ hn) (Nat.le_add_left _ _)
    (Nat.le_trans hsize (Nat.le_add_left _ _))
  rw [List.map_singleton] at hancestors
  rw [hancestors]

theorem path_rename {n : NodeId} (hlineage : w'.lineage (f n) = (w.lineage n).map f)
    (hname : ∀ m, (w'.cell (f m)).name = (w.cell m).name) : w'.path (f n) = w.path n := by
  have hnames : ∀ m, w'.pathName (f m) = w.pathName m := by
    intro m
    rw [pathName, pathName, hname]
  rw [path, path, hlineage, ← List.map_dropLast, ← List.map_reverse, List.map_map]
  exact congrArg (fun names => String.ofList (Text.join ['.'] names))
    (List.map_congr_left fun m _ => hnames m)

end World

/-! ## Printing -/

/-- The sentence of a failure, given how the values, the failures and the details in it show. -/
def Failure.sentence (value : Value → String) (inner : Failure → String)
    (detail : Detail → String) : Failure → String
  | .missingFile directory name => "local file does not exist: " ++ directory ++ "/" ++ name
  | .unreadableFile path d => "invalid file: " ++ path ++ ": " ++ detail d
  | .missingDirectory path => "directory does not exist: " ++ path
  | .notDirectory path => "not a directory: " ++ path
  | .invalidJson d => "JSON text failed to materialize: " ++ detail d
  | .invalidLiteral found => "expected a JSON object at the top level but found " ++ found
  | .invalidXml source d => "invalid XML in " ++ source ++ ": " ++ detail d
  | .invalidProperties path d => "invalid properties in " ++ path ++ ": " ++ detail d
  | .invalidEntry tag text d => "invalid <" ++ tag ++ "> entry '" ++ text ++ "': " ++ detail d
  | .circular path => "File: '" ++ path ++ "' is already on the stack"
  | .typeMismatch path expected found =>
      "Object at path '" ++ path ++ "' is not a " ++ expected ++ ": '" ++ found ++ "'"
  | .outOfTries tries test => "Ran out of tries (" ++ toString tries ++ ") but: " ++ test
  | .returning v => "Returning: " ++ value v
  | .evaluation statement cause => "failed to evaluate '" ++ statement ++ "': " ++ inner cause
  | .script fault => fault.message
  | .noEvaluator text => "no evaluator configured for '" ++ text ++ "'"

theorem Failure.message_eq_sentence (r : Rendering) (cause : Failure) :
    cause.message r = cause.sentence (Value.show r) (Failure.message r) (Detail.show r) := by
  cases cause <;> rfl

theorem Detail.show_congr {r r' : Rendering} (hreader : r'.reader = r.reader) :
    Detail.show r' = Detail.show r := by
  funext detail
  cases detail with
  | own text => rfl
  | reader text => exact congrFun hreader text

section Printing

variable {r r' : Rendering}

theorem Failure.message_returning_rename {v : Value} (h : (v.rename f).show r' = v.show r) :
    ((Failure.returning v).rename f).message r' = (Failure.returning v).message r := by
  have hmessage : ∀ (r : Rendering) (v : Value),
      (Failure.returning v).message r = "Returning: " ++ v.show r := fun _ _ => rfl
  have hrename : (Failure.returning v).rename f = .returning (v.rename f) := rfl
  rw [hrename, hmessage, hmessage, h]

theorem Failure.message_evaluation_rename {s : String} {cause : Failure}
    (h : (cause.rename f).message r' = cause.message r) :
    ((Failure.evaluation s cause).rename f).message r' =
      (Failure.evaluation s cause).message r := by
  have hmessage : ∀ (r : Rendering) (cause : Failure),
      (Failure.evaluation s cause).message r =
        "failed to evaluate '" ++ s ++ "': " ++ cause.message r := fun _ _ => rfl
  have hrename : (Failure.evaluation s cause).rename f = .evaluation s (cause.rename f) := rfl
  rw [hrename, hmessage, hmessage, h]

/-- A failure that carries no value and no other failure has no nodes. -/
theorem Failure.message_congr (hreader : r'.reader = r.reader) {cause : Failure}
    (hvalue : ∀ v, cause ≠ .returning v) (hinner : ∀ s c, cause ≠ .evaluation s c) :
    (cause.rename f).message r' = cause.message r := by
  rw [Failure.message_eq_sentence, Failure.message_eq_sentence, Detail.show_congr hreader]
  cases cause with
  | returning v => exact absurd rfl (hvalue v)
  | evaluation s c => exact absurd rfl (hinner s c)
  | _ => rfl

mutual

/-- Values print alike when their nodes do. -/
theorem Value.show_rename (hreader : r'.reader = r.reader) :
    ∀ v : Value, (∀ x ∈ v.nodes, r'.path (f x) = r.path x) →
      (∀ x ∈ v.nodes, r'.object (f x) = r.object x) → (v.rename f).show r' = v.show r
  | .node id, hpath, _ => hpath id List.mem_cons_self
  | .list items, hpath, hobject =>
      congrArg (fun items => (Json.array items).compact)
        (Value.allJson_rename hreader items r.object r'.object hpath hobject hobject)
  | .failure cause, hpath, hobject => Failure.message_rename hreader cause hpath hobject
  | .null, _, _ | .bool _, _, _ | .number _, _, _ | .text _, _, _ | .date _, _, _
  | .dateTime _, _, _ | .duration _, _, _ => rfl

theorem Value.json_rename (hreader : r'.reader = r.reader) :
    ∀ (v : Value) (object object' : NodeId → Json),
      (∀ x ∈ v.nodes, r'.path (f x) = r.path x) →
      (∀ x ∈ v.nodes, r'.object (f x) = r.object x) →
      (∀ x ∈ v.nodes, object' (f x) = object x) → (v.rename f).json r' object' = v.json r object
  | .node id, _, _, _, _, hobject => hobject id List.mem_cons_self
  | .list items, object, object', hpath, hinner, hobject =>
      congrArg Json.array
        (Value.allJson_rename hreader items object object' hpath hinner hobject)
  | .failure cause, _, _, hpath, hinner, _ =>
      congrArg Json.text (Failure.message_rename hreader cause hpath hinner)
  | .null, _, _, _, _, _ | .bool _, _, _, _, _, _ | .number _, _, _, _, _, _
  | .text _, _, _, _, _, _ | .date _, _, _, _, _, _ | .dateTime _, _, _, _, _, _
  | .duration _, _, _, _, _, _ => rfl

theorem Value.allJson_rename (hreader : r'.reader = r.reader) :
    ∀ (items : List Value) (object object' : NodeId → Json),
      (∀ x ∈ Value.allNodes items, r'.path (f x) = r.path x) →
      (∀ x ∈ Value.allNodes items, r'.object (f x) = r.object x) →
      (∀ x ∈ Value.allNodes items, object' (f x) = object x) →
      Value.allJson r' object' (Value.renameAll f items) = Value.allJson r object items
  | [], _, _, _, _, _ => rfl
  | v :: rest, object, object', hpath, hinner, hobject => by
      have hleft : ∀ x ∈ v.nodes, x ∈ Value.allNodes (v :: rest) :=
        fun x hx => List.mem_append_left _ hx
      have hright : ∀ x ∈ Value.allNodes rest, x ∈ Value.allNodes (v :: rest) :=
        fun x hx => List.mem_append_right _ hx
      have hv := Value.json_rename hreader v object object' (fun x hx => hpath x (hleft x hx))
        (fun x hx => hinner x (hleft x hx)) (fun x hx => hobject x (hleft x hx))
      have hrest := Value.allJson_rename hreader rest object object'
        (fun x hx => hpath x (hright x hx)) (fun x hx => hinner x (hright x hx))
        (fun x hx => hobject x (hright x hx))
      show (v.rename f).json r' object' :: Value.allJson r' object' (Value.renameAll f rest) =
        v.json r object :: Value.allJson r object rest
      rw [hv, hrest]

theorem Failure.message_rename (hreader : r'.reader = r.reader) :
    ∀ cause : Failure, (∀ x ∈ cause.nodes, r'.path (f x) = r.path x) →
      (∀ x ∈ cause.nodes, r'.object (f x) = r.object x) →
      (cause.rename f).message r' = cause.message r
  | .returning v, hpath, hobject =>
      Failure.message_returning_rename (Value.show_rename hreader v hpath hobject)
  | .evaluation _ cause, hpath, hobject =>
      Failure.message_evaluation_rename (Failure.message_rename hreader cause hpath hobject)
  | .missingFile _ _, _, _ | .unreadableFile _ _, _, _ | .missingDirectory _, _, _
  | .notDirectory _, _, _ | .invalidJson _, _, _ | .invalidLiteral _, _, _
  | .invalidXml _ _, _, _ | .invalidProperties _ _, _, _ | .invalidEntry _ _ _, _, _
  | .circular _, _, _ | .typeMismatch _ _ _, _, _ | .outOfTries _ _, _, _ | .script _, _, _
  | .noEvaluator _, _, _ =>
      Failure.message_congr hreader (fun _ => Failure.noConfusion) (fun _ _ => Failure.noConfusion)

end

mutual

/-- Values are equal when their counterparts are. -/
theorem Value.same_rename (hinjective : Function.Injective f) (hreader : r'.reader = r.reader)
    (hpath : ∀ x, r'.path (f x) = r.path x) (hobject : ∀ x, r'.object (f x) = r.object x) :
    ∀ v u : Value, (v.rename f).same r' (u.rename f) = v.same r u
  | .node a, .node b => by
      show (f a == f b) = (a == b)
      rw [Bool.eq_iff_iff, beq_iff_eq, beq_iff_eq, hinjective.eq_iff]
  | .list as, .list bs => Value.allSame_rename hinjective hreader hpath hobject as bs
  | .failure a, .failure b => by
      show ((a.rename f).message r' == (b.rename f).message r') = (a.message r == b.message r)
      rw [Failure.message_rename hreader a (fun x _ => hpath x) (fun x _ => hobject x),
        Failure.message_rename hreader b (fun x _ => hpath x) (fun x _ => hobject x)]
  | .null, u | .bool _, u | .number _, u | .text _, u | .date _, u | .dateTime _, u
  | .duration _, u => by cases u <;> rfl
  | .list _, .null | .list _, .bool _ | .list _, .number _ | .list _, .text _ | .list _, .date _
  | .list _, .dateTime _ | .list _, .duration _ | .list _, .node _ | .list _, .failure _
  | .node _, .null | .node _, .bool _ | .node _, .number _ | .node _, .text _ | .node _, .date _
  | .node _, .dateTime _ | .node _, .duration _ | .node _, .list _ | .node _, .failure _
  | .failure _, .null | .failure _, .bool _ | .failure _, .number _ | .failure _, .text _
  | .failure _, .date _ | .failure _, .dateTime _ | .failure _, .duration _ | .failure _, .list _
  | .failure _, .node _ => rfl

theorem Value.allSame_rename (hinjective : Function.Injective f) (hreader : r'.reader = r.reader)
    (hpath : ∀ x, r'.path (f x) = r.path x) (hobject : ∀ x, r'.object (f x) = r.object x) :
    ∀ vs us : List Value,
      Value.allSame r' (Value.renameAll f vs) (Value.renameAll f us) = Value.allSame r vs us
  | [], [] | [], _ :: _ | _ :: _, [] => rfl
  | v :: vs, u :: us => by
      show ((v.rename f).same r' (u.rename f) &&
        Value.allSame r' (Value.renameAll f vs) (Value.renameAll f us)) = _
      rw [Value.same_rename hinjective hreader hpath hobject v u,
        Value.allSame_rename hinjective hreader hpath hobject vs us]
      rfl

end

end Printing

end ScriptTree
