import ScriptTree.Proofs.Json.Lexemes

/-!
# Indented text read back

The lenient reader reads back what `Json.pretty` writes, provided that it reads back the numbers and
the texts in the value each for itself (`Json.readLenient?_pretty`). So such values are the same
when their indented texts are (`Json.eq_of_pretty_eq`).
-/

set_option autoImplicit false

namespace ScriptTree

/-- Pairs with distinct keys are entries as they are. -/
theorem Entries.ofPairs_of_nodup {α : Type} {pairs : List (String × α)}
    (h : (Entries.keys pairs).Nodup) : Entries.ofPairs pairs = pairs := by
  suffices hall : ∀ (rest : List (String × α)) (before : Entries α),
      (Entries.keys (before ++ rest)).Nodup →
        rest.foldl (fun entries p => entries.insert p.1 p.2) before = before ++ rest from
    hall pairs [] h
  intro rest
  induction rest with
  | nil => exact fun before _ => (List.append_nil before).symm
  | cons p rest ih =>
      intro before hkeys
      have hnew : p.1 ∉ before.keys := by
        rw [Entries.keys, List.map_append, List.map_cons] at hkeys
        exact fun hmem => (List.nodup_append.mp hkeys).2.2 _ hmem _ List.mem_cons_self rfl
      have hassoc : before ++ p :: rest = (before ++ [p]) ++ rest := by simp
      rw [List.foldl_cons, Entries.insert_of_not_mem before p.2 hnew, hassoc]
      apply ih
      rwa [← hassoc]

namespace Json

/-! ## Values -/

/-- The reader gives a number or a text back from what is written for it alone. -/
def ReadsBack (leaf : Json) : Prop := readLenient? leaf.compact = some leaf

mutual

/-- The numbers and the texts in the value are read back, each for itself, and so are the keys. The
keys of an object are distinct. -/
def Legible : Json → Prop
  | .number n => ReadsBack (.number n)
  | .text s => ReadsBack (.text s)
  | .array items => AllLegible items
  | .object members => (Entries.keys members).Nodup ∧ MembersLegible members
  | _ => True

/-- All of the values are legible. -/
def AllLegible : List Json → Prop
  | [] => True
  | item :: rest => item.Legible ∧ AllLegible rest

/-- The keys of the members are read back, and their values are legible. -/
def MembersLegible : List (String × Json) → Prop
  | [] => True
  | (key, member) :: rest => ReadsBack (.text key) ∧ member.Legible ∧ MembersLegible rest

end

namespace Lenient

open ScriptTree.Number (isNumeral)

/-- A text at the front is read up to its closing quote. -/
theorem readValue_quoted (fuel : Nat) (s : List Char) :
    readValue (fuel + 1) ('"' :: s) =
      (readString '"' (s.length + 1) s).map fun p => (.text (String.ofList p.1), p.2) := by
  rw [readValue, skip_cons_of_dark (by decide)]
  show (readString '"' (s.length + 1) s).bind _ = _
  cases readString '"' (s.length + 1) s <;> rfl

/-- A text that is read back has no separators of lines. -/
theorem isSeparator_of_readsBack {s : String} (h : ReadsBack (.text s)) :
    ∀ c ∈ s.toList, isSeparator c = false := by
  unfold ReadsBack readLenient? at h
  obtain ⟨⟨value, rest⟩, hread, -⟩ := Option.bind_eq_some_iff.mp h
  rw [compact, String.toList_ofList, compactChars, textChars, List.cons_append,
    readValue_quoted] at hread
  obtain ⟨p, hstring, -⟩ := Option.map_eq_some_iff.mp hread
  exact isSeparator_of_readString hstring

theorem readString_of_readsBack {s : String} (h : ReadsBack (.text s)) (t : List Char) :
    readString '"' ((s.toList.flatMap escapedChar ++ '"' :: t).length + 1)
      (s.toList.flatMap escapedChar ++ '"' :: t) = some (s.toList, t) := by
  apply readString_escaped (isSeparator_of_readsBack h)
  have hlength : ∀ s : List Char, s.length ≤ (s.flatMap escapedChar).length := by
    intro s
    induction s with
    | nil => exact Nat.le_refl _
    | cons c rest ih =>
        have hone : 1 ≤ (escapedChar c).length := by
          unfold escapedChar
          repeat' split
          all_goals simp
        rw [List.flatMap_cons, List.length_append, List.length_cons]
        omega
  have hbound := hlength s.toList
  rw [List.length_append, List.length_cons]
  omega

/-- A text that is read back is read at the front of an indented text. -/
theorem readValue_text {s : String} (h : ReadsBack (.text s)) (t : List Char) (fuel : Nat) :
    readValue (fuel + 1) (textChars s ++ t) = some (.text s, t) := by
  rw [textChars, List.cons_append, List.cons_append, List.append_assoc, readValue_quoted,
    List.singleton_append, readString_of_readsBack h, Option.map_some, String.ofList_toList]

theorem readKey_text {s : String} (h : ReadsBack (.text s)) (t : List Char) :
    readKey (textChars s ++ t) = some (s, t) := by
  rw [textChars, List.cons_append, List.cons_append, List.append_assoc, List.singleton_append]
  show (readString '"' _ _).map _ = _
  rw [readString_of_readsBack h]
  exact congrArg (fun s => some (s, t)) String.ofList_toList

/-- Where a numeral stands a number is read. -/
theorem readValue_of_numeral {c : Char} (hc : isNumeral c = true) (rest : List Char) (fuel : Nat) :
    readValue (fuel + 1) (c :: rest) = readNumber (c :: rest) := by
  show (skip (c :: rest)).bind _ = _
  rw [skip_cons_of_dark (dark_of_isNumeral hc)]
  have hmem := mem_numerals hc
  simp only [numerals, List.mem_cons, List.not_mem_nil, or_false] at hmem
  rcases hmem with rfl | rfl | rfl | rfl | rfl | rfl | rfl | rfl | rfl | rfl | rfl | rfl | rfl | rfl
  all_goals rfl

/-- The text of a number that is read back is read as it, up to its end. -/
theorem readNumber_of_readsBack {n : Number} (h : ReadsBack (.number n)) :
    (∃ c rest, n.text.toList = c :: rest) ∧ readNumber n.text.toList = some (.number n, []) := by
  have hs := Number.isNumeral_of_mem_text n
  unfold ReadsBack readLenient? at h
  obtain ⟨⟨value, rest⟩, hread, hend⟩ := Option.bind_eq_some_iff.mp h
  rw [compact, String.toList_ofList, compactChars] at hread
  cases htext : n.text.toList with
  | nil =>
      rw [htext] at hread
      cases hread
  | cons c others =>
      rw [htext] at hread hs
      rw [readValue_of_numeral (hs c List.mem_cons_self)] at hread
      obtain ⟨left, hskip, hleft⟩ := Option.bind_eq_some_iff.mp hend
      have hrest : rest = [] ∧ value = .number n := by
        cases rest with
        | nil =>
            rcases Option.some.inj hskip with rfl
            exact ⟨rfl, Option.some.inj hleft⟩
        | cons d more =>
            -- What is left would begin with a numeral.
            have hd := hs d ((readNumber_suffix hs hread).subset List.mem_cons_self)
            rw [skip_cons_of_dark (dark_of_isNumeral hd)] at hskip
            rcases Option.some.inj hskip with rfl
            cases hleft
      rw [hread, hrest.1, hrest.2]
      exact ⟨⟨c, others, rfl⟩, rfl⟩

/-- A number that is read back from its text is read at the front of an indented text. -/
theorem readValue_number {n : Number} (h : ReadsBack (.number n)) {t : List Char} (ht : Follows t)
    (fuel : Nat) : readValue (fuel + 1) (n.text.toList ++ t) = some (.number n, t) := by
  have hs := Number.isNumeral_of_mem_text n
  obtain ⟨⟨c, rest, htext⟩, hread⟩ := readNumber_of_readsBack h
  have happend := readNumber_append ht hs
  rw [hread, htext, List.cons_append] at happend
  rw [htext, List.cons_append, readValue_of_numeral (hs c (htext ▸ List.mem_cons_self)), happend]
  rfl

/-- Every value begins with a character that is neither a blank nor the end of a list. -/
theorem exists_prettyChars_eq_cons (depth : Nat) {json : Json} (h : json.Legible) :
    ∃ c rest, prettyChars depth json = c :: rest ∧ Dark c ∧ c ≠ ']' := by
  cases json with
  | null => exact ⟨'n', _, rfl, by decide, by decide⟩
  | bool b =>
      cases b
      · exact ⟨'f', _, rfl, by decide, by decide⟩
      · exact ⟨'t', _, rfl, by decide, by decide⟩
  | number n =>
      rw [Legible] at h
      obtain ⟨⟨c, rest, htext⟩, -⟩ := readNumber_of_readsBack h
      have hc := Number.isNumeral_of_mem_text n c (htext ▸ List.mem_cons_self)
      rw [prettyChars]
      refine ⟨c, rest, htext, dark_of_isNumeral hc, ?_⟩
      rintro rfl
      cases hc
  | text s =>
      rw [prettyChars]
      exact ⟨'"', _, rfl, by decide, by decide⟩
  | array items =>
      cases items
      · exact ⟨'[', _, rfl, by decide, by decide⟩
      · exact ⟨'[', _, rfl, by decide, by decide⟩
  | object members =>
      cases members
      · exact ⟨'\x7b', _, rfl, by decide, by decide⟩
      · exact ⟨'\x7b', _, rfl, by decide, by decide⟩

section Steps

variable {fuel depth : Nat} {c : Char} {key : String} {s t rest : List Char} {item value : Json}
  {items : List Json} {members : List (String × Json)}

/-- The last item of a list. -/
theorem readItems_last (hc : Dark c) (hend : c ≠ ']') (outer : Nat)
    (h : readValue fuel (c :: s) = some (item, newline outer ++ ']' :: t)) :
    readItems (fuel + 1) (newline depth ++ c :: s) = some ([item], t) := by
  have hclose : skip (newline outer ++ ']' :: t) = some (']' :: t) := by
    rw [skip_newline, skip_cons_of_dark (by decide)]
  rw [readItems, skip_newline, skip_cons_of_dark hc]
  simp only [Option.bind_eq_bind, Option.bind_some]
  split
  · rename_i heq
    exact absurd (List.cons.inj heq).1 hend
  · simp only [h, Option.bind_some, hclose]

/-- An item with others behind it. -/
theorem readItems_more (hc : Dark c) (hend : c ≠ ']')
    (h : readValue fuel (c :: s) = some (item, ',' :: rest))
    (hrest : readItems fuel rest = some (items, t)) :
    readItems (fuel + 1) (newline depth ++ c :: s) = some (item :: items, t) := by
  have hcomma : skip (',' :: rest) = some (',' :: rest) := skip_cons_of_dark (by decide) rest
  rw [readItems, skip_newline, skip_cons_of_dark hc]
  simp only [Option.bind_eq_bind, Option.bind_some]
  split
  · rename_i heq
    exact absurd (List.cons.inj heq).1 hend
  · simp only [h, Option.bind_some, hcomma, hrest]

/-- What stands before the value of a member: its key in quotes and a colon. -/
theorem readMembers_key (hkey : ReadsBack (.text key)) (depth : Nat) (s : List Char) :
    ∃ c rest, textChars key ++ ':' :: s = c :: rest ∧ c ≠ '\x7d' ∧
      skip (newline depth ++ c :: rest) = some (c :: rest) ∧
      readKey (c :: rest) = some (key, ':' :: s) ∧ skip (':' :: s) = some (':' :: s) := by
  refine ⟨'"', _, rfl, by decide, ?_, readKey_text hkey _, skip_cons_of_dark (by decide) s⟩
  rw [skip_newline]
  exact skip_cons_of_dark (by decide) _

/-- The last member of an object. -/
theorem readMembers_last (hkey : ReadsBack (.text key)) (outer : Nat)
    (h : readValue fuel s = some (value, newline outer ++ '\x7d' :: t)) :
    readMembers (fuel + 1) (newline depth ++ (textChars key ++ ':' :: s)) =
      some ([(key, value)], t) := by
  obtain ⟨c, rest, htext, hopen, hskip, hread, hcolon⟩ := readMembers_key hkey depth s
  have hclose : skip (newline outer ++ '\x7d' :: t) = some ('\x7d' :: t) := by
    rw [skip_newline, skip_cons_of_dark (by decide)]
  rw [htext, readMembers, hskip]
  simp only [Option.bind_eq_bind, Option.bind_some]
  split
  · rename_i heq
    exact absurd (List.cons.inj heq).1 hopen
  · simp only [hread, Option.bind_some, hcolon, h, hclose]

/-- A member with others behind it. -/
theorem readMembers_more (hkey : ReadsBack (.text key))
    (h : readValue fuel s = some (value, ',' :: rest))
    (hrest : readMembers fuel rest = some (members, t)) :
    readMembers (fuel + 1) (newline depth ++ (textChars key ++ ':' :: s)) =
      some ((key, value) :: members, t) := by
  obtain ⟨c, tail, htext, hopen, hskip, hread, hcolon⟩ := readMembers_key hkey depth s
  have hcomma := skip_cons_of_dark (by decide : Dark ',') rest
  rw [htext, readMembers, hskip]
  simp only [Option.bind_eq_bind, Option.bind_some]
  split
  · rename_i heq
    exact absurd (List.cons.inj heq).1 hopen
  · simp only [hread, Option.bind_some, hcolon, h, hcomma, hrest]

end Steps

/-- A blank in front of a value counts for nothing. -/
theorem readValue_blank (fuel : Nat) (s : List Char) :
    readValue (fuel + 1) (' ' :: s) = readValue (fuel + 1) s := by
  rw [readValue, readValue, skip_cons_of_gap (by decide) (by decide)]

/-- The literals and the empty containers. -/
theorem readValue_null (fuel : Nat) (t : List Char) :
    readValue (fuel + 1) ("null".toList ++ t) = some (.null, t) := by
  show readValue (fuel + 1) ('n' :: 'u' :: 'l' :: 'l' :: t) = _
  rw [readValue, skip_cons_of_dark (by decide)]
  rfl

theorem readValue_bool (b : Bool) (fuel : Nat) (t : List Char) :
    readValue (fuel + 1) (boolChars b ++ t) = some (.bool b, t) := by
  cases b
  · show readValue (fuel + 1) ('f' :: 'a' :: 'l' :: 's' :: 'e' :: t) = _
    rw [readValue, skip_cons_of_dark (by decide)]
    rfl
  · show readValue (fuel + 1) ('t' :: 'r' :: 'u' :: 'e' :: t) = _
    rw [readValue, skip_cons_of_dark (by decide)]
    rfl

theorem readValue_array (fuel : Nat) {s t : List Char} {items : List Json}
    (h : readItems fuel s = some (items, t)) :
    readValue (fuel + 1) ('[' :: s) = some (.array items, t) := by
  rw [readValue, skip_cons_of_dark (by decide)]
  simp only [Option.bind_eq_bind, Option.bind_some, h]

theorem readValue_object (fuel : Nat) {s t : List Char} {members : List (String × Json)}
    (h : readMembers fuel s = some (members, t)) (hkeys : (Entries.keys members).Nodup) :
    readValue (fuel + 1) ('\x7b' :: s) = some (.object members, t) := by
  rw [readValue, skip_cons_of_dark (by decide)]
  simp only [Option.bind_eq_bind, Option.bind_some, h, Entries.ofPairs_of_nodup hkeys]

theorem readItems_nil (fuel : Nat) (t : List Char) :
    readItems (fuel + 1) (']' :: t) = some ([], t) := by
  rw [readItems, skip_cons_of_dark (by decide)]
  rfl

theorem readMembers_nil (fuel : Nat) (t : List Char) :
    readMembers (fuel + 1) ('\x7d' :: t) = some ([], t) := by
  rw [readMembers, skip_cons_of_dark (by decide)]
  rfl

theorem prettyChars_array (depth : Nat) (item : Json) (rest : List Json) :
    prettyChars depth (.array (item :: rest)) =
      '[' :: (prettyItems (depth + 1) (item :: rest) ++ (newline depth ++ [']'])) := by
  rw [prettyChars, List.cons_append, List.cons_append, List.append_assoc]
  exact List.cons_ne_nil item rest

theorem prettyChars_object (depth : Nat) (p : String × Json) (rest : List (String × Json)) :
    prettyChars depth (.object (p :: rest)) =
      '\x7b' :: (prettyMembers (depth + 1) (p :: rest) ++ (newline depth ++ ['\x7d'])) := by
  rw [prettyChars, List.cons_append, List.cons_append, List.append_assoc]
  exact List.cons_ne_nil p rest

theorem prettyItems_more (depth : Nat) (item next : Json) (rest : List Json) :
    prettyItems depth (item :: next :: rest) =
      newline depth ++ (prettyChars depth item ++ ',' :: prettyItems depth (next :: rest)) := by
  rw [prettyItems, List.append_assoc]

theorem prettyMembers_more (depth : Nat) (key : String) (value : Json) (next : String × Json)
    (rest : List (String × Json)) :
    prettyMembers depth ((key, value) :: next :: rest) =
      newline depth ++ (textChars key ++ ':' :: ' ' ::
        (prettyChars depth value ++ ',' :: prettyMembers depth (next :: rest))) := by
  rw [prettyMembers]
  simp only [List.append_assoc, List.cons_append]

theorem prettyItems_last (depth : Nat) (item : Json) :
    prettyItems depth [item] = newline depth ++ prettyChars depth item := by
  rw [prettyItems, List.append_nil]

theorem prettyMembers_last (depth : Nat) (key : String) (value : Json) :
    prettyMembers depth [(key, value)] =
      newline depth ++ (textChars key ++ ':' :: ' ' :: prettyChars depth value) := by
  rw [prettyMembers, List.append_nil, List.append_assoc]

theorem length_newline (depth : Nat) : 1 ≤ (newline depth).length :=
  Nat.succ_le_succ (Nat.zero_le _)

/-- What the reader gives with that much fuel for indented texts that are shorter. -/
structure Rereads (fuel : Nat) : Prop where
  /-- A legible value is read at the front of its text. -/
  value : ∀ (json : Json) (depth : Nat) (t : List Char), json.Legible → Follows t →
    (prettyChars depth json).length < fuel →
    readValue fuel (prettyChars depth json ++ t) = some (json, t)
  /-- Legible items are read behind the bracket that opens their list. -/
  items : ∀ (item : Json) (rest : List Json) (depth outer : Nat) (t : List Char),
    AllLegible (item :: rest) → (prettyItems depth (item :: rest)).length < fuel →
    readItems fuel (prettyItems depth (item :: rest) ++ (newline outer ++ ']' :: t)) =
      some (item :: rest, t)
  /-- Legible members are read behind the brace that opens their object. -/
  members : ∀ (p : String × Json) (rest : List (String × Json)) (depth outer : Nat)
    (t : List Char), MembersLegible (p :: rest) →
    (prettyMembers depth (p :: rest)).length < fuel →
    readMembers fuel (prettyMembers depth (p :: rest) ++ (newline outer ++ '\x7d' :: t)) =
      some (p :: rest, t)

namespace Rereads

variable {fuel : Nat}

theorem value_succ (ih : Rereads fuel) (json : Json) (depth : Nat) (t : List Char)
    (h : json.Legible) (ht : Follows t) (hfuel : (prettyChars depth json).length < fuel + 1) :
    readValue (fuel + 1) (prettyChars depth json ++ t) = some (json, t) := by
  cases json with
  | null => exact readValue_null fuel t
  | bool b => exact readValue_bool b fuel t
  | number n =>
      rw [Legible] at h
      rw [prettyChars]
      exact readValue_number h ht fuel
  | text s =>
      rw [Legible] at h
      rw [prettyChars]
      exact readValue_text h t fuel
  | array items =>
      rw [Legible] at h
      cases items with
      | nil =>
          rw [prettyChars] at hfuel ⊢
          obtain ⟨fuel, rfl⟩ := Nat.exists_eq_add_one_of_ne_zero (Nat.ne_of_gt
            (Nat.lt_of_succ_lt_succ (Nat.lt_trans (Nat.lt_succ_self 1) hfuel)))
          exact readValue_array _ (readItems_nil fuel t)
      | cons item rest =>
          rw [prettyChars_array] at hfuel ⊢
          rw [List.length_cons, List.length_append] at hfuel
          rw [List.cons_append, List.append_assoc, List.append_assoc]
          exact readValue_array _ (ih.items item rest (depth + 1) depth t h (by omega))
  | object members =>
      rw [Legible] at h
      cases members with
      | nil =>
          rw [prettyChars] at hfuel ⊢
          obtain ⟨fuel, rfl⟩ := Nat.exists_eq_add_one_of_ne_zero (Nat.ne_of_gt
            (Nat.lt_of_succ_lt_succ (Nat.lt_trans (Nat.lt_succ_self 1) hfuel)))
          exact readValue_object _ (readMembers_nil fuel t) List.nodup_nil
      | cons p rest =>
          rw [prettyChars_object] at hfuel ⊢
          rw [List.length_cons, List.length_append] at hfuel
          rw [List.cons_append, List.append_assoc, List.append_assoc]
          exact readValue_object _ (ih.members p rest (depth + 1) depth t h.2 (by omega)) h.1

theorem items_succ (ih : Rereads fuel) (item : Json) (rest : List Json) (depth outer : Nat)
    (t : List Char) (h : AllLegible (item :: rest))
    (hfuel : (prettyItems depth (item :: rest)).length < fuel + 1) :
    readItems (fuel + 1) (prettyItems depth (item :: rest) ++ (newline outer ++ ']' :: t)) =
      some (item :: rest, t) := by
  rw [AllLegible] at h
  obtain ⟨c, s, hchars, hc, hend⟩ := exists_prettyChars_eq_cons depth h.1
  have hline := length_newline depth
  cases rest with
  | nil =>
      rw [prettyItems_last] at hfuel ⊢
      rw [List.length_append] at hfuel
      have hread := ih.value item depth _ h.1 (follows_newline outer (']' :: t)) (by omega)
      rw [hchars, List.cons_append] at hread
      rw [hchars, List.append_assoc, List.cons_append]
      exact readItems_last hc hend outer hread
  | cons next others =>
      rw [prettyItems_more] at hfuel ⊢
      rw [List.length_append, List.length_append, List.length_cons] at hfuel
      have hread := ih.value item depth _ h.1
        (follows_comma (prettyItems depth (next :: others) ++ (newline outer ++ ']' :: t)))
        (by omega)
      have hrest := ih.items next others depth outer t h.2 (by omega)
      rw [hchars, List.cons_append] at hread
      rw [List.append_assoc, List.append_assoc, List.cons_append, hchars, List.cons_append]
      exact readItems_more hc hend hread hrest

theorem members_succ (ih : Rereads fuel) (p : String × Json) (rest : List (String × Json))
    (depth outer : Nat) (t : List Char) (h : MembersLegible (p :: rest))
    (hfuel : (prettyMembers depth (p :: rest)).length < fuel + 1) :
    readMembers (fuel + 1) (prettyMembers depth (p :: rest) ++ (newline outer ++ '\x7d' :: t)) =
      some (p :: rest, t) := by
  obtain ⟨key, value⟩ := p
  rw [MembersLegible] at h
  have hline := length_newline depth
  -- The blank behind the colon is skipped.
  have hblank : ∀ {s : List Char} {result}, 0 < fuel → readValue fuel s = some result →
      readValue fuel (' ' :: s) = some result := by
    intro s result hpos hread
    obtain ⟨fuel, rfl⟩ := Nat.exists_eq_succ_of_ne_zero (Nat.ne_of_gt hpos)
    rw [readValue_blank, hread]
  cases rest with
  | nil =>
      rw [prettyMembers_last] at hfuel ⊢
      simp only [List.length_append, List.length_cons] at hfuel
      have hread := ih.value value depth _ h.2.1 (follows_newline outer ('\x7d' :: t)) (by omega)
      rw [List.append_assoc, List.append_assoc, List.cons_append, List.cons_append]
      exact readMembers_last h.1 outer (hblank (by omega) hread)
  | cons next others =>
      rw [prettyMembers_more] at hfuel ⊢
      simp only [List.length_append, List.length_cons] at hfuel
      have hread := ih.value value depth _ h.2.1
        (follows_comma (prettyMembers depth (next :: others) ++ (newline outer ++ '\x7d' :: t)))
        (by omega)
      have hrest := ih.members next others depth outer t h.2.2 (by omega)
      rw [List.append_assoc, List.append_assoc, List.cons_append, List.cons_append,
        List.append_assoc, List.cons_append]
      exact readMembers_more h.1 (hblank (by omega) hread) hrest

end Rereads

/-- By induction on the fuel, which each of the functions takes one unit of. -/
theorem rereads (fuel : Nat) : Rereads fuel := by
  induction fuel with
  | zero =>
      constructor
      · exact fun _ _ _ _ _ hfuel => absurd hfuel (Nat.not_lt_zero _)
      · exact fun _ _ _ _ _ _ hfuel => absurd hfuel (Nat.not_lt_zero _)
      · exact fun _ _ _ _ _ _ hfuel => absurd hfuel (Nat.not_lt_zero _)
  | succ fuel ih => exact ⟨ih.value_succ, ih.items_succ, ih.members_succ⟩

end Lenient

/-- The indented text of a legible value is read back as the value. -/
theorem readLenient?_pretty {json : Json} (h : json.Legible) :
    readLenient? json.pretty = some json := by
  have hread := (Lenient.rereads (2 * (prettyChars 0 json).length + 2)).value json 0 [] h
    Lenient.follows_nil (by omega)
  rw [List.append_nil] at hread
  rw [readLenient?, pretty, String.toList_ofList]
  show (Lenient.readValue _ _).bind _ = _
  rw [hread]
  rfl

/-- Legible values with the same indented text are the same. -/
theorem eq_of_pretty_eq {json json' : Json} (h : json.Legible) (h' : json'.Legible)
    (heq : json.pretty = json'.pretty) : json = json' := by
  have hread := readLenient?_pretty h
  rw [heq, readLenient?_pretty h'] at hread
  exact (Option.some.inj hread).symm

end Json

end ScriptTree
