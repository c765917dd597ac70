/-!
# Ordered entries

Keyed values in the order in which their keys first came. A second value for a key takes the place
of the first, and a removal keeps the order of the rest. `get?_insert` says what a key holds after
an insertion, and `keys_insert_of_mem` that a known key keeps its place.
-/

set_option autoImplicit false

namespace ScriptTree

universe u v

/-- Keyed values in the order of their first insertion. -/
abbrev Entries (α : Type u) := List (String × α)

namespace Entries

variable {α : Type u} {β : Type v}

/-- The value under a key. -/
def get? (entries : Entries α) (key : String) : Option α :=
  match entries with
  | [] => none
  | (k, v) :: rest => if k == key then some v else get? rest key

/-- Puts a value under a key: in the key's place when it has one, else at the end. -/
def insert (entries : Entries α) (key : String) (value : α) : Entries α :=
  match entries with
  | [] => [(key, value)]
  | (k, v) :: rest => if k == key then (k, value) :: rest else (k, v) :: insert rest key value

/-- Removes a key and keeps the order of the others. -/
def erase (entries : Entries α) (key : String) : Entries α :=
  match entries with
  | [] => []
  | (k, v) :: rest => if k == key then rest else (k, v) :: erase rest key

/-- The keys in order. -/
def keys (entries : Entries α) : List String := entries.map Prod.fst

/-- The key holds a value. -/
def contains (entries : Entries α) (key : String) : Bool := (entries.get? key).isSome

/-- The entries of a list of pairs, inserted from the left. -/
def ofPairs (pairs : List (String × α)) : Entries α :=
  pairs.foldl (fun entries p => entries.insert p.1 p.2) []

/-- Applies a function to every value. -/
def mapValues (f : α → β) (entries : Entries α) : Entries β := entries.map fun p => (p.1, f p.2)

@[simp] theorem get?_nil (key : String) : get? ([] : Entries α) key = none := rfl

theorem get?_cons (k key : String) (v : α) (rest : Entries α) :
    get? ((k, v) :: rest) key = if k == key then some v else get? rest key := rfl

theorem get?_insert (entries : Entries α) (key other : String) (value : α) :
    (entries.insert key value).get? other =
      if key == other then some value else entries.get? other := by
  induction entries with
  | nil => simp [insert, get?]
  | cons p rest ih =>
      obtain ⟨k, v⟩ := p
      by_cases hk : k = key
      · subst hk
        by_cases ho : k = other <;> simp [insert, get?, ho]
      · by_cases ho : k = other
        · subst ho
          have hne : ¬ key = k := fun e => hk e.symm
          simp [insert, get?, hk, hne]
        · simp [insert, get?, hk, ho, ih]

theorem get?_erase_of_ne (entries : Entries α) {key other : String} (h : key ≠ other) :
    (entries.erase key).get? other = entries.get? other := by
  induction entries with
  | nil => rfl
  | cons p rest ih =>
      obtain ⟨k, v⟩ := p
      by_cases hk : k = key
      · subst hk
        simp [erase, get?, h]
      · by_cases ho : k = other
        · subst ho
          simp [erase, get?, hk]
        · simp [erase, get?, hk, ho, ih]

theorem keys_insert_of_mem (entries : Entries α) {key : String} (value : α)
    (h : key ∈ entries.keys) : (entries.insert key value).keys = entries.keys := by
  induction entries with
  | nil => simp [keys] at h
  | cons p rest ih =>
      obtain ⟨k, v⟩ := p
      by_cases hk : k = key
      · simp [insert, keys, hk]
      · have hmem : key ∈ keys rest := by
          simp only [keys, List.map_cons, List.mem_cons] at h
          rcases h with h | h
          · exact absurd h.symm hk
          · exact h
        have := ih hmem
        simp only [keys] at this
        simp [insert, keys, hk, this]

theorem insert_of_not_mem (entries : Entries α) {key : String} (value : α)
    (h : key ∉ entries.keys) : entries.insert key value = entries ++ [(key, value)] := by
  induction entries with
  | nil => rfl
  | cons p rest ih =>
      obtain ⟨k, v⟩ := p
      simp only [keys, List.map_cons, List.mem_cons, not_or] at h
      have hk : ¬ k = key := fun e => h.1 e.symm
      simp [insert, hk, ih h.2]

theorem contains_iff_mem_keys (entries : Entries α) (key : String) :
    entries.contains key = true ↔ key ∈ entries.keys := by
  induction entries with
  | nil => simp [contains, keys]
  | cons p rest ih =>
      obtain ⟨k, v⟩ := p
      by_cases hk : k = key
      · simp [contains, get?, keys, hk]
      · have hne : ¬ key = k := fun e => hk e.symm
        simp only [contains, keys] at ih
        simp [contains, get?, keys, hk, hne, ih]

end Entries

end ScriptTree
