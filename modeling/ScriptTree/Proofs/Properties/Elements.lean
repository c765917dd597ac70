import Mathlib.Data.List.Forall2
import ScriptTree.Proofs.Xml.Matching
import ScriptTree.Properties.Markup

/-!
# Entries of a document

The reader of properties in markup keeps one entry under way and no other structure. The entries of
a document are told by its tags alone: each start tag of the name opens one that ends where the
element does (`inside`), and its value is the text and character data up to there (`content?`).
Where every entry ends and none stands in another one (`Flat`), the pairs that the reader returns
are those of the entries, in order (`entries_kept`). Without that it loses entries and reports
nothing (`ofMarkup_lost`): one that is open at the end of the text, and one that another entry
starts in.
-/

set_option autoImplicit false

namespace ScriptTree.Properties

open Xml (Event Tag EndsMatch)

/-! ## The entries and their pairs -/

/-- The events up to the end of an element, or all without one. The depth is the number of elements
inside that are open. -/
def inside : Nat → List Event → List Event
  | _, [] => []
  | depth, .start tag :: rest => .start tag :: inside (depth + 1) rest
  | 0, .stop _ :: _ => []
  | depth + 1, .stop name :: rest => .stop name :: inside depth rest
  | depth, .empty tag :: rest => .empty tag :: inside depth rest
  | depth, .text content :: rest => .text content :: inside depth rest
  | depth, .data content :: rest => .data content :: inside depth rest
  | depth, .aside :: rest => .aside :: inside depth rest

/-- The text and the character data of events, one after the other; none when a reference in a text
cannot be resolved. -/
def content? : List Event → Option String
  | [] => some ""
  | .text piece :: rest => piece.bind fun text => (content? rest).map (text ++ ·)
  | .data text :: rest => (content? rest).map (text ++ ·)
  | .start _ :: rest => content? rest
  | .empty _ :: rest => content? rest
  | .stop _ :: rest => content? rest
  | .aside :: rest => content? rest

/-- The entries of a document in the order of their tags, each with the events inside it. -/
def entryElements : List Event → List (Tag × List Event)
  | [] => []
  | .start tag :: rest =>
      if tag.name = entryTag then (tag, inside 0 rest) :: entryElements rest
      else entryElements rest
  | .empty tag :: rest =>
      if tag.name = entryTag then (tag, []) :: entryElements rest else entryElements rest
  | .stop _ :: rest => entryElements rest
  | .text _ :: rest => entryElements rest
  | .data _ :: rest => entryElements rest
  | .aside :: rest => entryElements rest

/-- The key in a tag: the value of the first attribute of that name. -/
def key? (tag : Tag) : Option String :=
  (tag.attributes.find? fun a => a.key == "key").bind fun a => a.value

/-- The pair is the property of the entry: its key and its content. -/
def IsPair (entry : Tag × List Event) (pair : String × String) : Prop :=
  key? entry.1 = some pair.1 ∧ content? entry.2 = some pair.2

/-- Every entry ends, and none stands in another one, given the names of the elements that are open
at first. -/
def Flat : List String → List Event → Prop
  | opened, [] => entryTag ∉ opened
  | opened, .start tag :: rest =>
      (tag.name = entryTag → entryTag ∉ opened) ∧ Flat (tag.name :: opened) rest
  | opened, .empty tag :: rest => (tag.name = entryTag → entryTag ∉ opened) ∧ Flat opened rest
  | opened, .stop _ :: rest => Flat opened.tail rest
  | opened, .text _ :: rest => Flat opened rest
  | opened, .data _ :: rest => Flat opened rest
  | opened, .aside :: rest => Flat opened rest

/-- The properties of entries; none when one of them has no key or no content. -/
def pairs? : List (Tag × List Event) → Option (List (String × String))
  | [] => some []
  | entry :: rest =>
      (key? entry.1).bind fun key => (content? entry.2).bind fun value =>
        (pairs? rest).map ((key, value) :: ·)

theorem pairs?_eq_some_iff {entries : List (Tag × List Event)} {pairs : List (String × String)} :
    pairs? entries = some pairs ↔ List.Forall₂ IsPair entries pairs := by
  induction entries generalizing pairs with
  | nil =>
      rw [pairs?, List.forall₂_nil_left_iff, Option.some.injEq, eq_comm]
  | cons entry rest ih =>
      rw [List.forall₂_cons_left_iff, pairs?]
      constructor
      · intro h
        obtain ⟨key, hkey, h⟩ := Option.bind_eq_some_iff.mp h
        obtain ⟨value, hvalue, h⟩ := Option.bind_eq_some_iff.mp h
        obtain ⟨others, hothers, rfl⟩ := Option.map_eq_some_iff.mp h
        exact ⟨(key, value), others, ⟨hkey, hvalue⟩, ih.mp hothers, rfl⟩
      · rintro ⟨pair, others, ⟨hkey, hvalue⟩, hothers, rfl⟩
        rw [hkey, hvalue, ih.mpr hothers]
        rfl

instance Flat.decidable : ∀ (opened : List String) (events : List Event),
    Decidable (Flat opened events)
  | opened, [] => inferInstanceAs (Decidable (entryTag ∉ opened))
  | opened, .start tag :: rest =>
      have := Flat.decidable (tag.name :: opened) rest
      inferInstanceAs (Decidable (_ ∧ _))
  | opened, .empty _ :: rest =>
      have := Flat.decidable opened rest
      inferInstanceAs (Decidable (_ ∧ _))
  | opened, .stop _ :: rest => Flat.decidable opened.tail rest
  | opened, .text _ :: rest => Flat.decidable opened rest
  | opened, .data _ :: rest => Flat.decidable opened rest
  | opened, .aside :: rest => Flat.decidable opened rest

/-! ## The reader -/

theorem toOption_entryKey (tag : Tag) : (entryKey tag).toOption = key? tag := by
  rw [entryKey, key?]
  cases tag.attributes.find? fun a => a.key == "key" with
  | none => rfl
  | some a =>
      simp only [Option.bind_some]
      cases a.value with
      | none => rfl
      | some key => rfl

namespace Collector

variable {c c' : Collector} {event : Event} {tag : Tag} {name : String}

/-- The entries that the reader has collected at the end of the events. -/
def collect (c : Collector) (events : List Event) : Option (List (String × String)) :=
  ((events.foldlM step c).toOption).map entries

theorem collect_of_step (h : c.step event = .ok c') (events : List Event) :
    c.collect (event :: events) = c'.collect events := by
  rw [collect, collect, List.foldlM_cons, h]
  rfl

theorem collect_of_fault {fault : Fault} (h : c.step event = .error fault) (events : List Event) :
    c.collect (event :: events) = none := by
  rw [collect, List.foldlM_cons, h]
  rfl

/-- A tag of another name than that of entries changes nothing. -/
theorem step_other (h : tag.name ≠ entryTag) (c : Collector) :
    c.step (.start tag) = .ok c ∧ c.step (.empty tag) = .ok c := by
  have hname : (tag.name == entryTag) = false := beq_false_of_ne h
  refine ⟨?_, ?_⟩
  · rw [step, hname]
    rfl
  · rw [step, hname]
    rfl

/-- The tag of an entry starts it, or holds all of it, under its key. -/
theorem step_entry (h : tag.name = entryTag) (c : Collector) :
    (∃ fault, key? tag = none ∧ c.step (.start tag) = .error fault ∧
        c.step (.empty tag) = .error fault) ∨
      ∃ key, key? tag = some key ∧ c.step (.start tag) = .ok { c with current := some (key, "") } ∧
        c.step (.empty tag) = .ok { c with entries := c.entries ++ [(key, "")] } := by
  have hname : (tag.name == entryTag) = true := beq_iff_eq.mpr h
  have hkey := toOption_entryKey tag
  rw [step, step, if_pos hname, if_pos hname]
  cases hread : entryKey tag with
  | error fault =>
      rw [hread] at hkey
      exact .inl ⟨fault, hkey.symm, rfl, rfl⟩
  | ok key =>
      rw [hread] at hkey
      exact .inr ⟨key, hkey.symm, rfl, rfl⟩

theorem step_stop_other (h : name ≠ entryTag) (c : Collector) : c.step (.stop name) = .ok c := by
  rw [step, beq_false_of_ne h]
  rfl

theorem step_stop_entry (c : Collector) :
    c.step (.stop entryTag) = .ok ⟨c.entries ++ c.current.toList, none⟩ := by
  rw [step, beq_self_eq_true]
  rfl

end Collector

/-- What the reader collects of events. -/
structure Collects (events : List Event) : Prop where
  /-- Outside of entries, the pairs of all entries behind those it has. -/
  outside : ∀ (opened : List String) (entries : List (String × String)), entryTag ∉ opened →
    EndsMatch opened events → Flat opened events →
      Collector.collect ⟨entries, none⟩ events = (pairs? (entryElements events)).map (entries ++ ·)
  /-- Within an entry, the rest of its content first. The elements that are open inside the entry
  are `inner`, and the entry stands in those of `outer`. -/
  within : ∀ (inner outer : List String) (entries : List (String × String)) (key value : String),
    entryTag ∉ inner → entryTag ∉ outer → EndsMatch (inner ++ entryTag :: outer) events →
      Flat (inner ++ entryTag :: outer) events →
        Collector.collect ⟨entries, some (key, value)⟩ events =
          (content? (inside inner.length events)).bind fun more =>
            (pairs? (entryElements events)).map (entries ++ (key, value ++ more) :: ·)

namespace Collects

variable {rest : List Event}

theorem nil : Collects [] where
  outside _ entries _ _ _ := congrArg some (List.append_nil entries).symm
  within inner _ _ _ _ _ _ _ hflat :=
    absurd (List.mem_append_right inner List.mem_cons_self) hflat

/-- A start tag opens an entry only outside of one. -/
theorem start (h : Collects rest) (tag : Tag) : Collects (.start tag :: rest) := by
  constructor
  · intro opened entries hopened hends hflat
    by_cases hname : tag.name = entryTag
    · rw [entryElements, if_pos hname, pairs?]
      rcases Collector.step_entry hname ⟨entries, none⟩ with
        ⟨fault, hkey, hstep, -⟩ | ⟨key, hkey, hstep, -⟩
      · rw [Collector.collect_of_fault hstep, hkey, Option.bind_none, Option.map_none]
      · -- The rest of the events is read from within the entry.
        have hends : EndsMatch (tag.name :: opened) rest := hends
        have hflat := hflat.2
        rw [hname] at hends hflat
        rw [Collector.collect_of_step hstep, hkey, Option.bind_some, Option.map_bind]
        refine (h.within [] opened entries key "" List.not_mem_nil hopened hends hflat).trans ?_
        simp only [String.empty_append, Function.comp_def, Option.map_map]
        rfl
    · -- The element is no entry, and no entry is open with it either.
      rw [Collector.collect_of_step (Collector.step_other hname _).1, entryElements, if_neg hname]
      refine h.outside (tag.name :: opened) entries ?_ hends hflat.2
      simp [hopened, Ne.symm hname]
  · intro inner outer entries key value hinner houter hends hflat
    -- In a flat document the tag within an entry is none itself.
    have hname : tag.name ≠ entryTag := fun hname =>
      hflat.1 hname (List.mem_append_right inner List.mem_cons_self)
    rw [Collector.collect_of_step (Collector.step_other hname _).1, entryElements, if_neg hname]
    refine h.within (tag.name :: inner) outer entries key value ?_ houter hends hflat.2
    simp [hinner, Ne.symm hname]

/-- An entry in a single tag is collected with the empty text. -/
theorem empty (h : Collects rest) (tag : Tag) : Collects (.empty tag :: rest) := by
  constructor
  · intro opened entries hopened hends hflat
    by_cases hname : tag.name = entryTag
    · rw [entryElements, if_pos hname, pairs?]
      rcases Collector.step_entry hname ⟨entries, none⟩ with
        ⟨fault, hkey, -, hstep⟩ | ⟨key, hkey, -, hstep⟩
      · rw [Collector.collect_of_fault hstep, hkey, Option.bind_none, Option.map_none]
      · rw [Collector.collect_of_step hstep, hkey, Option.bind_some, Option.map_bind]
        refine (h.outside opened (entries ++ [(key, "")]) hopened hends hflat.2).trans ?_
        simp only [content?, Option.bind_some, Function.comp_def, Option.map_map,
          List.append_assoc, List.singleton_append]
    · rw [Collector.collect_of_step (Collector.step_other hname _).2, entryElements, if_neg hname]
      exact h.outside opened entries hopened hends hflat.2
  · intro inner outer entries key value hinner houter hends hflat
    have hname : tag.name ≠ entryTag := fun hname =>
      hflat.1 hname (List.mem_append_right inner List.mem_cons_self)
    rw [Collector.collect_of_step (Collector.step_other hname _).2, entryElements, if_neg hname]
    exact h.within inner outer entries key value hinner houter hends hflat.2

/-- An end tag ends the entry under way where no element inside it is open. -/
theorem stop (h : Collects rest) (name : String) : Collects (.stop name :: rest) := by
  constructor
  · intro opened entries hopened hends hflat
    cases opened with
    | nil => exact hends.elim
    | cons expected opened =>
        -- The end tag is that of an open element, and none of these is an entry.
        obtain ⟨rfl, hends⟩ := hends
        rw [List.mem_cons, not_or] at hopened
        rw [Collector.collect_of_step (Collector.step_stop_other (Ne.symm hopened.1) _)]
        exact h.outside opened entries hopened.2 hends hflat
  · intro inner outer entries key value hinner houter hends hflat
    cases inner with
    | nil =>
        -- The entry ends, and nothing is left of its content.
        obtain ⟨rfl, hends⟩ := hends
        rw [Collector.collect_of_step (Collector.step_stop_entry _)]
        refine (h.outside outer (entries ++ [(key, value)]) houter hends hflat).trans ?_
        simp only [List.append_assoc, List.singleton_append]
        show _ = (pairs? (entryElements rest)).map (entries ++ (key, value ++ "") :: ·)
        rw [String.append_empty]
    | cons expected inner =>
        obtain ⟨rfl, hends⟩ := hends
        rw [List.mem_cons, not_or] at hinner
        rw [Collector.collect_of_step (Collector.step_stop_other (Ne.symm hinner.1) _)]
        exact h.within inner outer entries key value hinner.2 houter hends hflat

/-- Text is collected as a part of the content. -/
theorem within_append (h : Collects rest) (inner outer : List String)
    (entries : List (String × String)) (key value text : String) (hinner : entryTag ∉ inner)
    (houter : entryTag ∉ outer) (hends : EndsMatch (inner ++ entryTag :: outer) rest)
    (hflat : Flat (inner ++ entryTag :: outer) rest) :
    Collector.collect ⟨entries, some (key, value ++ text)⟩ rest =
      ((content? (inside inner.length rest)).map (text ++ ·)).bind fun more =>
        (pairs? (entryElements rest)).map (entries ++ (key, value ++ more) :: ·) := by
  rw [h.within inner outer entries key (value ++ text) hinner houter hends hflat, Option.bind_map]
  simp only [String.append_assoc, Function.comp_def]

theorem text (h : Collects rest) (piece : Option String) : Collects (.text piece :: rest) := by
  constructor
  · intro opened entries hopened hends hflat
    have hstep : Collector.step ⟨entries, none⟩ (.text piece) = .ok ⟨entries, none⟩ := rfl
    rw [Collector.collect_of_step hstep]
    exact h.outside opened entries hopened hends hflat
  · intro inner outer entries key value hinner houter hends hflat
    cases piece with
    | none => exact Collector.collect_of_fault rfl rest
    | some text =>
        have hstep : Collector.step ⟨entries, some (key, value)⟩ (.text (some text)) =
            .ok ⟨entries, some (key, value ++ text)⟩ := rfl
        rw [Collector.collect_of_step hstep]
        exact h.within_append inner outer entries key value text hinner houter hends hflat

theorem data (h : Collects rest) (text : String) : Collects (.data text :: rest) := by
  constructor
  · intro opened entries hopened hends hflat
    have hstep : Collector.step ⟨entries, none⟩ (.data text) = .ok ⟨entries, none⟩ := rfl
    rw [Collector.collect_of_step hstep]
    exact h.outside opened entries hopened hends hflat
  · intro inner outer entries key value hinner houter hends hflat
    have hstep : Collector.step ⟨entries, some (key, value)⟩ (.data text) =
        .ok ⟨entries, some (key, value ++ text)⟩ := rfl
    rw [Collector.collect_of_step hstep]
    exact h.within_append inner outer entries key value text hinner houter hends hflat

theorem aside (h : Collects rest) : Collects (.aside :: rest) := by
  constructor
  · intro opened entries hopened hends hflat
    have hstep : Collector.step ⟨entries, none⟩ .aside = .ok ⟨entries, none⟩ := rfl
    rw [Collector.collect_of_step hstep]
    exact h.outside opened entries hopened hends hflat
  · intro inner outer entries key value hinner houter hends hflat
    have hstep : Collector.step ⟨entries, some (key, value)⟩ .aside =
        .ok ⟨entries, some (key, value)⟩ := rfl
    rw [Collector.collect_of_step hstep]
    exact h.within inner outer entries key value hinner houter hends hflat

end Collects

/-- The reader collects the pairs of the entries. -/
theorem collects (events : List Event) : Collects events := by
  induction events with
  | nil => exact .nil
  | cons event rest ih =>
      cases event with
      | start tag => exact ih.start tag
      | empty tag => exact ih.empty tag
      | stop name => exact ih.stop name
      | text piece => exact ih.text piece
      | data text => exact ih.data text
      | aside => exact ih.aside

theorem ofEvents_eq_ok_iff {events : List Event} {pairs : List (String × String)} :
    ofEvents events = .ok pairs ↔ Collector.collect ⟨[], none⟩ events = some pairs := by
  rw [ofEvents, Collector.collect]
  cases events.foldlM Collector.step ⟨[], none⟩ with
  | error fault => exact ⟨nofun, nofun⟩
  | ok c =>
      constructor
      · intro h
        exact congrArg some (Except.ok.inj h)
      · intro h
        exact congrArg Except.ok (Option.some.inj h)

theorem ofEvents_of_flat {events : List Event} (hends : EndsMatch [] events)
    (hflat : Flat [] events) (pairs : List (String × String)) :
    ofEvents events = .ok pairs ↔ List.Forall₂ IsPair (entryElements events) pairs := by
  rw [ofEvents_eq_ok_iff, (collects events).outside [] [] List.not_mem_nil hends hflat,
    ← pairs?_eq_some_iff]
  simp only [List.nil_append, Option.map_id']

theorem ofMarkup_eq_ok_iff {text : String} {pairs : List (String × String)} :
    ofMarkup text = .ok pairs ↔
      (Xml.read text).complete = true ∧ ofEvents (Xml.read text).events = .ok pairs := by
  rw [ofMarkup]
  cases ofEvents (Xml.read text).events with
  | error fault => exact ⟨nofun, fun h => (nomatch h.2)⟩
  | ok found =>
      show (if (Xml.read text).complete = true then Except.ok found
        else Except.error Fault.markup) = _ ↔ _
      cases (Xml.read text).complete with
      | false => exact ⟨nofun, fun h => (nomatch h.1)⟩
      | true => exact ⟨fun h => ⟨rfl, h⟩, And.right⟩

/-- Where every entry ends and none stands in another one, the reader returns one pair for each
entry, in order, with the key and the content of the entry, of the events and so of a text with
these events. It refuses them only when an entry has no key or no content, or the text is malformed
behind them. -/
theorem entries_kept (events : List Event) (hends : EndsMatch [] events)
    (hflat : Flat [] events) :
    (∀ pairs, ofEvents events = .ok pairs ↔
        List.Forall₂ IsPair (entryElements events) pairs) ∧
      ∀ text, (Xml.read text).events = events → ∀ pairs,
        (ofMarkup text = .ok pairs ↔
          (Xml.read text).complete = true ∧ List.Forall₂ IsPair (entryElements events) pairs) := by
  refine ⟨ofEvents_of_flat hends hflat, ?_⟩
  rintro text rfl pairs
  rw [ofMarkup_eq_ok_iff, ofEvents_of_flat hends hflat]

/-- An entry with markup and character data inside, and one in a single tag. -/
theorem ofMarkup_markup_inside :
    Flat [] (Xml.read "<p><entry key='a'>x<b>y</b><![CDATA[<]]></entry>t<entry key='b'/>").events ∧
      ofMarkup "<p><entry key='a'>x<b>y</b><![CDATA[<]]></entry>t<entry key='b'/>" =
        .ok [("a", "xy<"), ("b", "")] := by
  have hflat : Flat []
      (Xml.read "<p><entry key='a'>x<b>y</b><![CDATA[<]]></entry>t<entry key='b'/>").events := by
    decide +kernel
  have hkept := (entries_kept _ (Xml.endsMatch_read _) hflat).2 _ rfl [("a", "xy<"), ("b", "")]
  refine ⟨hflat, hkept.mpr ⟨by decide +kernel, ?_⟩⟩
  exact pairs?_eq_some_iff.mp (by decide +kernel)

/-- An entry that is open at the end of the text is lost, and so is one that another entry starts
in. -/
theorem ofMarkup_lost :
    ofMarkup "<p><entry key='a'>1" = .ok [] ∧
      (entryElements (Xml.read "<p><entry key='a'>1").events).length = 1 ∧
      ofMarkup "<p><entry key='a'>1<entry key='b'>2</entry></entry></p>" = .ok [("b", "2")] ∧
      (entryElements (Xml.read
        "<p><entry key='a'>1<entry key='b'>2</entry></entry></p>").events).length = 2 := by
  decide +kernel

end ScriptTree.Properties
