import ScriptTree.Json.Basic

/-!
# Equality of JSON values

Whether two JSON values are equal is decided part by part (`Json.same`), so what a text is read as
can be evaluated.
-/

set_option autoImplicit false

namespace ScriptTree.Json

mutual

/-- The values are equal. -/
def same : Json → Json → Bool
  | .null, .null => true
  | .bool a, .bool b => a == b
  | .number a, .number b => decide (a = b)
  | .text a, .text b => a == b
  | .array a, .array b => sameAll a b
  | .object a, .object b => sameMembers a b
  | _, _ => false

/-- The values are equal one by one. -/
def sameAll : List Json → List Json → Bool
  | [], [] => true
  | a :: rest, b :: others => a.same b && sameAll rest others
  | _, _ => false

/-- The members are equal one by one. -/
def sameMembers : List (String × Json) → List (String × Json) → Bool
  | [], [] => true
  | (key, a) :: rest, (other, b) :: others => key == other && a.same b && sameMembers rest others
  | _, _ => false

end

mutual

theorem eq_of_same {a b : Json} (h : a.same b = true) : a = b := by
  cases a with
  | null =>
      cases b with
      | null => rfl
      | _ => cases h
  | bool x =>
      cases b with
      | bool y => exact congrArg Json.bool (beq_iff_eq.mp h)
      | _ => cases h
  | number x =>
      cases b with
      | number y => exact congrArg Json.number (of_decide_eq_true h)
      | _ => cases h
  | text x =>
      cases b with
      | text y => exact congrArg Json.text (beq_iff_eq.mp h)
      | _ => cases h
  | array items =>
      cases b with
      | array others =>
          rw [same] at h
          exact congrArg Json.array (eq_of_sameAll h)
      | _ => cases h
  | object members =>
      cases b with
      | object others =>
          rw [same] at h
          exact congrArg Json.object (eq_of_sameMembers h)
      | _ => cases h
  termination_by sizeOf a

theorem eq_of_sameAll : ∀ {items others : List Json}, sameAll items others = true →
    items = others
  | [], [], _ => rfl
  | _ :: _, _ :: _, h => by
      rw [sameAll, Bool.and_eq_true] at h
      rw [eq_of_same h.1, eq_of_sameAll h.2]
  termination_by items => sizeOf items

theorem eq_of_sameMembers : ∀ {members others : List (String × Json)},
    sameMembers members others = true → members = others
  | [], [], _ => rfl
  | (_, _) :: _, (_, _) :: _, h => by
      rw [sameMembers, Bool.and_eq_true, Bool.and_eq_true, beq_iff_eq] at h
      rw [h.1.1, eq_of_same h.1.2, eq_of_sameMembers h.2]
  termination_by members => sizeOf members

end

mutual

theorem same_self (a : Json) : a.same a = true := by
  cases a with
  | null => rfl
  | bool b => exact beq_self_eq_true b
  | number n => exact decide_eq_true rfl
  | text s => exact beq_self_eq_true s
  | array items => exact sameAll_self items
  | object members => exact sameMembers_self members
  termination_by sizeOf a

theorem sameAll_self : ∀ items : List Json, sameAll items items = true
  | [] => rfl
  | item :: rest => by rw [sameAll, same_self item, sameAll_self rest, Bool.and_self]
  termination_by items => sizeOf items

theorem sameMembers_self : ∀ members : List (String × Json), sameMembers members members = true
  | [] => rfl
  | (key, member) :: rest => by
      rw [sameMembers, beq_self_eq_true, same_self member, sameMembers_self rest, Bool.and_self,
        Bool.and_self]
  termination_by members => sizeOf members

end

instance : DecidableEq Json := fun a b =>
  decidable_of_iff (a.same b = true) ⟨eq_of_same, fun h => h ▸ same_self a⟩

end ScriptTree.Json
