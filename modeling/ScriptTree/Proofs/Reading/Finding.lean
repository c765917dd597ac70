import ScriptTree.Proofs.Load.Linkage

/-!
# Finding by paths

A path is cut at its points into names, so the names of two paths with a point between them are
those of both (`NodeId.pathNames_append`), and plain keys are the names of the path that they make up
(`NodeId.pathNames_intercalate`). Finding follows the names one by one. Where nothing is expanded, a
path that goes on from one that leads to a node is therefore found from that node
(`NodeId.find_append`).
-/

set_option autoImplicit false

namespace ScriptTree

/-! ## Names in paths -/

namespace Text

theorem splitFrom_separator (c : Char) (rest : List Char) :
    splitFrom [c] 0 (c :: rest) = [] :: splitFrom [c] 0 rest := by
  simp [splitFrom]

theorem splitFrom_of_ne {c d : Char} (h : c ≠ d) (rest : List Char) :
    splitFrom [c] 0 (d :: rest) = consFirst d (splitFrom [c] 0 rest) := by
  simp [splitFrom, h]

theorem consFirst_append (c : Char) {pieces : List (List Char)} (h : pieces ≠ [])
    (more : List (List Char)) : consFirst c (pieces ++ more) = consFirst c pieces ++ more := by
  cases pieces with
  | nil => exact absurd rfl h
  | cons piece rest => rfl

/-- A separator between two texts parts their pieces. -/
theorem splitAt_append_cons (separator : Char) (s t : List Char) :
    splitAt separator (s ++ separator :: t) = splitAt separator s ++ splitAt separator t := by
  show splitFrom [separator] 0 _ = splitFrom [separator] 0 s ++ splitFrom [separator] 0 t
  induction s with
  | nil => rw [List.nil_append, splitFrom_separator]; rfl
  | cons c rest ih =>
      rw [List.cons_append]
      by_cases hc : separator = c
      · subst hc
        rw [splitFrom_separator, splitFrom_separator, ih, List.cons_append]
      · rw [splitFrom_of_ne hc, splitFrom_of_ne hc, ih, consFirst_append c (splitFrom_ne_nil _ _ _)]

theorem splitAt_of_notMem {separator : Char} {s : List Char} (h : separator ∉ s) :
    splitAt separator s = [s] := by
  show splitFrom [separator] 0 s = [s]
  induction s with
  | nil => rfl
  | cons c rest ih =>
      rw [List.mem_cons, not_or] at h
      obtain ⟨hc, hrest⟩ := h
      rw [splitFrom_of_ne hc, ih hrest]
      rfl

end Text

/-- The key is one name in a path: it is not empty, has no points and no blanks at its ends. -/
def PlainKey (key : String) : Prop :=
  key ≠ "" ∧ '.' ∉ key.toList ∧ Text.trim key.toList = key.toList

instance : DecidablePred PlainKey := fun _ => inferInstanceAs (Decidable (_ ∧ _ ∧ _))

namespace NodeId

/-- The names of two paths with a point between them are those of the first and of the second. -/
theorem pathNames_append (p q : String) :
    pathNames (p ++ "." ++ q) = pathNames p ++ pathNames q := by
  have hchars : (p ++ "." ++ q).toList = p.toList ++ '.' :: q.toList := by simp
  rw [pathNames, hchars, Text.splitAt_append_cons, List.map_append, List.filter_append,
    List.map_append]
  rfl

theorem pathNames_of_plain {key : String} (h : PlainKey key) : pathNames key = [key] := by
  obtain ⟨hne, hundotted, htrimmed⟩ := h
  have hsome : key.toList.isEmpty = false := by
    rw [Bool.eq_false_iff, ne_eq, List.isEmpty_iff, String.toList_eq_nil_iff]
    exact hne
  rw [pathNames, Text.splitAt_of_notMem hundotted, List.map_singleton, htrimmed]
  simp [hsome, String.ofList_toList]

/-- Plain keys with points between them are the names of the path. -/
theorem pathNames_intercalate {keys : List String} (h : ∀ key ∈ keys, PlainKey key) :
    pathNames (".".intercalate keys) = keys := by
  induction keys with
  | nil => decide
  | cons key rest ih =>
      obtain ⟨hkey, hrest⟩ := List.forall_mem_cons.mp h
      cases rest with
      | nil => exact pathNames_of_plain hkey
      | cons next others =>
          rw [String.intercalate_cons_cons, pathNames_append, pathNames_of_plain hkey, ih hrest,
            List.singleton_append]

/-! ## Finding -/

variable (lang : Language)

/-- To follow names is to follow the first of them and, from what they lead to, the others. -/
theorem findFrom_append (names more : List String) (value : Value) :
    findFrom lang (names ++ more) value = findFrom lang names value >>= fun found =>
      match found with
      | some value => findFrom lang more value
      | none => pure none := by
  induction names generalizing value with
  | nil => rfl
  | cons name rest ih =>
      cases value with
      | node m =>
          rw [List.cons_append, findFrom, findFrom, Action.bind_assoc]
          congr 1
          funext found
          cases found with
          | none => rfl
          | some value => exact ih value
      | list items =>
          rw [List.cons_append, findFrom, findFrom]
          cases Number.readUnsigned64 name.toList with
          | error => rfl
          | ok i =>
              dsimp only
              cases items[i.toNat]? with
              | none => rfl
              | some value => exact ih value
      | _ => rfl

/-- Finding changes nothing where no template is expanded. -/
theorem findFrom_of_inert {w : World} (h : w.Inert) (names : List String) (value : Value) :
    ∃ found, findFrom lang names value w = (.done found, w) := by
  induction names generalizing value with
  | nil => exact ⟨some value, rfl⟩
  | cons name rest ih =>
      cases value with
      | node m =>
          have hinside : (w.hold [m]).Inert := h
          rw [findFrom, Action.bind_apply,
            Action.holding_of_done (get_of_inert lang hinside m name)]
          show ∃ found, (match w.getRaw m name with
            | some value => findFrom lang rest value
            | none => pure none) w = (.done found, w)
          cases w.getRaw m name with
          | none => exact ⟨none, rfl⟩
          | some value => exact ih value
      | list items =>
          rw [findFrom]
          cases Number.readUnsigned64 name.toList with
          | error => exact ⟨none, rfl⟩
          | ok i =>
              dsimp only
              cases items[i.toNat]? with
              | none => exact ⟨none, rfl⟩
              | some value => exact ih value
      | _ => exact ⟨none, rfl⟩

/-- A path that goes on from one that leads to a node is found from that node. -/
theorem find_append {w : World} (h : w.Inert) {root n : NodeId} {p : String}
    (hp : (root.find lang p w).1 = .done (some (.node n))) (q : String) :
    root.find lang (p ++ "." ++ q) w = n.find lang q w := by
  obtain ⟨found, hfound⟩ := findFrom_of_inert lang h (pathNames p) (.node root)
  rw [find] at hp
  rw [find, pathNames_append, findFrom_append, Action.bind_apply]
  rw [hfound] at hp ⊢
  obtain rfl := Outcome.done.inj hp
  rfl

end NodeId

end ScriptTree
