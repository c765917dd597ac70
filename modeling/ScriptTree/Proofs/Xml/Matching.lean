import ScriptTree.Xml.Markup

/-!
# Matching tags

The reader of markup keeps the names of the open elements and takes no end tag but that of the
innermost one, so the end tags among its events match (`EndsMatch`, `endsMatch_read`). An element
may still be open behind the last event.
-/

set_option autoImplicit false

namespace ScriptTree.Xml

/-- Every end tag names the innermost element that is open, given the names of those that are open
at first. -/
def EndsMatch : List String → List Event → Prop
  | _, [] => True
  | opened, .start tag :: rest => EndsMatch (tag.name :: opened) rest
  | [], .stop _ :: _ => False
  | expected :: outer, .stop name :: rest => name = expected ∧ EndsMatch outer rest
  | opened, .empty _ :: rest => EndsMatch opened rest
  | opened, .text _ :: rest => EndsMatch opened rest
  | opened, .data _ :: rest => EndsMatch opened rest
  | opened, .aside :: rest => EndsMatch opened rest

variable {opened opened' : List String} {event : Event} {events : List Event} {s rest : List Char}

theorem data_or_aside_of_readDeclaration (h : readDeclaration? s = some (event, rest)) :
    (∃ content, event = .data content) ∨ event = .aside := by
  rw [readDeclaration?.eq_def] at h
  split at h
  · obtain ⟨⟨body, others⟩, -, h⟩ := Option.bind_eq_some_iff.mp h
    dsimp only at h
    split at h
    · cases h
      exact .inl ⟨_, rfl⟩
    · cases h
  · obtain ⟨⟨body, others⟩, -, h⟩ := Option.bind_eq_some_iff.mp h
    dsimp only at h
    split at h
    · cases h
      exact .inr rfl
    · cases h
  · split at h
    · obtain ⟨⟨body, others⟩, -, h⟩ := Option.bind_eq_some_iff.mp h
      dsimp only at h
      split at h
      · cases h
        exact .inr rfl
      · cases h
    · cases h
  · cases h

/-- An event that is read opens or ends the element that it is about. -/
theorem endsMatch_readMarkup (h : readMarkup? opened s = some (event, opened', rest))
    (hevents : EndsMatch opened' events) : EndsMatch opened (event :: events) := by
  rw [readMarkup?.eq_def] at h
  split at h
  · cases h
  · obtain ⟨⟨event, others⟩, hfound, h⟩ := Option.map_eq_some_iff.mp h
    cases h
    rcases data_or_aside_of_readDeclaration hfound with ⟨content, rfl⟩ | rfl
    · exact hevents
    · exact hevents
  · obtain ⟨⟨body, others⟩, -, h⟩ := Option.bind_eq_some_iff.mp h
    dsimp only at h
    split at h
    · cases h
    · split at h
      · cases h
        exact ⟨rfl, hevents⟩
      · cases h
  · obtain ⟨⟨body, others⟩, -, h⟩ := Option.bind_eq_some_iff.mp h
    dsimp only at h
    split at h
    · cases h
      exact hevents
    · cases h
  · obtain ⟨⟨body, others⟩, -, h⟩ := Option.bind_eq_some_iff.mp h
    dsimp only at h
    split at h
    · cases h
      exact hevents
    · cases h
      exact hevents

theorem endsMatch_readEvents (opened : List String) (fuel : Nat) (s : List Char) :
    EndsMatch opened (readEvents opened fuel s).events := by
  induction fuel generalizing opened s with
  | zero => exact trivial
  | succ fuel ih =>
      unfold readEvents
      extract_lets rest raw markup after
      clear_value markup
      have hafter : EndsMatch opened after.events := by
        unfold after
        split
        · exact trivial
        · split
          · exact trivial
          · rename_i hmarkup
            exact endsMatch_readMarkup hmarkup (ih _ _)
      split
      · exact hafter
      · exact hafter

/-- The end tags of a text match. -/
theorem endsMatch_read (text : String) : EndsMatch [] (read text).events :=
  endsMatch_readEvents [] _ _

end ScriptTree.Xml
