import Mathlib
import ScriptTree.Proofs.Expr.Spelling

/-!
# Expressions written out

An expression is written with every part of it in parentheses, and its tokens are spelled with a
blank behind each (`Expr.written`). What can be read at all is read back from what is written
(`parse_written`), and of what the parser returns that is all but the doubles
(`readable_of_parse`).
-/

set_option autoImplicit false

namespace ScriptTree.Expr

open ScriptTree.Script (Fault)

/-! ## Tokens of expressions -/

/-- The tokens in parentheses. -/
def parens (tokens : List Token) : List Token :=
  .mark .openParen :: (tokens ++ [.mark .closeParen])

/-- The mark of an operator. -/
def Operator.mark : Operator → Mark
  | .add => .plus
  | .sub => .minus
  | .mul => .star
  | .div => .slash
  | .mod => .percent
  | .eq => .eq
  | .ne => .ne
  | .lt => .lt
  | .le => .le
  | .gt => .gt
  | .ge => .ge

/-- The token of a literal. Numbers that are written without a point are whole and not negative. -/
def Literal.token : Literal → Token
  | .null => .word "null"
  | .bool b => .word (if b then "true" else "false")
  | .number (.integer n _) => .int n.toNat
  | .number (.floating x _) => .float x
  | .text s => .text s

/-- The token of a name after a point: one that starts with a digit is a number. -/
def label (s : String) : Token :=
  if s.toList.head?.any Char.isDigit then .int (Number.digitsValue s.toList) else .word s

mutual

/-- The tokens of an expression, with every part of it in parentheses. -/
def tokens : Expr → List Token
  | .literal value => [value.token]
  | .list items => .mark .openBracket :: (tokensAll items ++ [.mark .closeBracket])
  | .name s => [.word s]
  | .member target s => parens (tokens target) ++ [.mark .dot, label s]
  | .index target key =>
      parens (tokens target) ++ .mark .openBracket :: (parens (tokens key) ++ [.mark .closeBracket])
  | .call s arguments =>
      .word s :: .mark .openParen :: (tokensAll arguments ++ [.mark .closeParen])
  | .send receiver s arguments =>
      parens (tokens receiver) ++
        .mark .dot :: label s :: .mark .openParen :: (tokensAll arguments ++ [.mark .closeParen])
  | .neg operand => .mark .minus :: parens (tokens operand)
  | .not operand => .mark .bang :: parens (tokens operand)
  | .binary op left right => parens (tokens left) ++ .mark op.mark :: parens (tokens right)
  | .and left right => parens (tokens left) ++ .mark .and :: parens (tokens right)
  | .or left right => parens (tokens left) ++ .mark .or :: parens (tokens right)
  | .choice test yes no =>
      parens (tokens test) ++
        .mark .question :: (parens (tokens yes) ++ .mark .colon :: parens (tokens no))
  | .assign place value => parens (tokens place) ++ .mark .assign :: parens (tokens value)

/-- The tokens of expressions in parentheses, with commas between them. -/
def tokensAll : List Expr → List Token
  | [] => []
  | e :: rest =>
      parens (tokens e) ++ match rest with
        | [] => []
        | _ :: _ => .mark .comma :: tokensAll rest

end

/-- The text of an expression, with every part of it in parentheses. -/
def written (e : Expr) : String := String.ofList (spelled e.tokens)

/-! ## Parts of expressions -/

mutual

/-- The property holds of the expression and of all of its parts. -/
def Every (p : Expr → Prop) : Expr → Prop
  | .literal value => p (.literal value)
  | .list items => p (.list items) ∧ EveryAll p items
  | .name s => p (.name s)
  | .member target s => p (.member target s) ∧ Every p target
  | .index target key => p (.index target key) ∧ Every p target ∧ Every p key
  | .call s arguments => p (.call s arguments) ∧ EveryAll p arguments
  | .send receiver s arguments =>
      p (.send receiver s arguments) ∧ Every p receiver ∧ EveryAll p arguments
  | .neg operand => p (.neg operand) ∧ Every p operand
  | .not operand => p (.not operand) ∧ Every p operand
  | .binary op left right => p (.binary op left right) ∧ Every p left ∧ Every p right
  | .and left right => p (.and left right) ∧ Every p left ∧ Every p right
  | .or left right => p (.or left right) ∧ Every p left ∧ Every p right
  | .choice test yes no => p (.choice test yes no) ∧ Every p test ∧ Every p yes ∧ Every p no
  | .assign place value => p (.assign place value) ∧ Every p place ∧ Every p value

/-- The property holds of the expressions and of all of their parts. -/
def EveryAll (p : Expr → Prop) : List Expr → Prop
  | [] => True
  | e :: rest => Every p e ∧ EveryAll p rest

end

/-- The expression is no double. -/
def NoFloat : Expr → Prop
  | .literal (.number (.floating _ _)) => False
  | _ => True

/-- What stands in the expression itself, its parts apart, can be read from a text. -/
def Readable : Expr → Prop
  | .literal value => ∃ t : Token, t.Legible ∧ Denotes t value
  | .name s | .call s _ => Wordlike s ∧ s ∉ reserved
  | .member _ s | .send _ s _ => ∃ t : Token, t.Legible ∧ Labels t s
  | .assign place _ => place.isPlace = true
  | _ => True

section Every

variable {p q r : Expr → Prop}

mutual

theorem Every.imp (h : ∀ e, p e → q e → r e) : ∀ {e : Expr}, e.Every p → e.Every q → e.Every r
  | .literal _, hp, hq | .name _, hp, hq => h _ hp hq
  | .list _, ⟨hp, hps⟩, ⟨hq, hqs⟩ | .call _ _, ⟨hp, hps⟩, ⟨hq, hqs⟩ =>
      ⟨h _ hp hq, EveryAll.imp h hps hqs⟩
  | .member _ _, ⟨hp, hp'⟩, ⟨hq, hq'⟩ | .neg _, ⟨hp, hp'⟩, ⟨hq, hq'⟩
  | .not _, ⟨hp, hp'⟩, ⟨hq, hq'⟩ => ⟨h _ hp hq, Every.imp h hp' hq'⟩
  | .send _ _ _, ⟨hp, hp', hps⟩, ⟨hq, hq', hqs⟩ =>
      ⟨h _ hp hq, Every.imp h hp' hq', EveryAll.imp h hps hqs⟩
  | .index _ _, ⟨hp, hp', hp''⟩, ⟨hq, hq', hq''⟩
  | .binary _ _ _, ⟨hp, hp', hp''⟩, ⟨hq, hq', hq''⟩
  | .and _ _, ⟨hp, hp', hp''⟩, ⟨hq, hq', hq''⟩ | .or _ _, ⟨hp, hp', hp''⟩, ⟨hq, hq', hq''⟩
  | .assign _ _, ⟨hp, hp', hp''⟩, ⟨hq, hq', hq''⟩ =>
      ⟨h _ hp hq, Every.imp h hp' hq', Every.imp h hp'' hq''⟩
  | .choice _ _ _, ⟨hp, hp1, hp2, hp3⟩, ⟨hq, hq1, hq2, hq3⟩ =>
      ⟨h _ hp hq, Every.imp h hp1 hq1, Every.imp h hp2 hq2, Every.imp h hp3 hq3⟩

theorem EveryAll.imp (h : ∀ e, p e → q e → r e) :
    ∀ {items : List Expr}, EveryAll p items → EveryAll q items → EveryAll r items
  | [], _, _ => trivial
  | _ :: _, ⟨hp, hps⟩, ⟨hq, hqs⟩ => ⟨Every.imp h hp hq, EveryAll.imp h hps hqs⟩

end

end Every

/-! ## What is derived can be read -/

/-- The token comes from a text. -/
def Token.Lexed (t : Token) : Prop := t.Legible ∨ ∃ x, t = .float x

/-- What stands in the expression itself can be read from a text, unless it is a double. -/
def Spellable (e : Expr) : Prop := e.NoFloat → e.Readable

theorem Token.Lexed.wordlike {s : String} (h : (Token.word s).Lexed) : Wordlike s := by
  rcases h with hlegible | ⟨_, hfloat⟩
  · exact hlegible
  · cases hfloat

theorem wordlike_null : Wordlike "null" :=
  ⟨'n', ['u', 'l', 'l'], rfl, by decide, by decide, by decide, by decide,
    List.all_eq_true.mp (by decide)⟩

theorem Denotes.spellable {t : Token} {value : Literal} (h : Denotes t value) (ht : t.Lexed) :
    Spellable (.literal value) := by
  intro hfloat
  rcases ht with hlegible | ⟨x, rfl⟩
  · exact ⟨t, hlegible, h⟩
  · cases h
    unfold floatLiteral at hfloat ⊢
    split
    · rename_i number hnumber
      rw [hnumber] at hfloat
      unfold Number.ofFloat? at hnumber
      split at hnumber
      · cases hnumber
        exact hfloat.elim
      · cases hnumber
    · exact ⟨.word "null", wordlike_null, .null⟩

theorem Labels.spellable {t : Token} {s : String} (h : Labels t s) (ht : t.Lexed) :
    ∃ t' : Token, t'.Legible ∧ Labels t' s := by
  rcases ht with hlegible | ⟨_, rfl⟩
  · exact ⟨t, hlegible, h⟩
  · cases h

theorem Joins.every {p : Expr → Prop} {left right e : Expr} {level : Level} {t : Token}
    (h : Joins left right level t e) (he : p e) (hleft : left.Every p) (hright : right.Every p) :
    e.Every p := by
  cases h <;> exact ⟨he, hleft, hright⟩

theorem Negates.every {p : Expr → Prop} {operand e : Expr} {t : Token} (h : Negates operand t e)
    (he : p e) (hoperand : operand.Every p) : e.Every p := by
  cases h <;> exact ⟨he, hoperand⟩

theorem Joins.spellable {left right e : Expr} {level : Level} {t : Token}
    (h : Joins left right level t e) : Spellable e := by
  cases h <;> exact fun _ => trivial

theorem Negates.spellable {operand e : Expr} {t : Token} (h : Negates operand t e) :
    Spellable e := by
  cases h <;> exact fun _ => trivial

mutual

/-- What is derived from tokens of a text can be read, but for doubles. -/
theorem Derives.spellable : ∀ {level : Level} {s : List Token} {e : Expr}, Derives level s e →
    (∀ t ∈ s, t.Lexed) → e.Every Spellable
  | _, _, _, .ascend _ h, hs => h.spellable hs
  | _, _, _, .assign h hplace h', hs => by
      simp only [List.forall_mem_append, List.forall_mem_cons] at hs
      exact ⟨fun _ => hplace, h.spellable hs.1, h'.spellable hs.2.2⟩
  | _, _, _, .choice h h' h'', hs => by
      simp only [List.forall_mem_append, List.forall_mem_cons] at hs
      exact ⟨fun _ => trivial, h.spellable hs.1, h'.spellable hs.2.2.1, h''.spellable hs.2.2.2.2⟩
  | _, _, _, .join hjoins _ h h', hs => by
      simp only [List.forall_mem_append, List.forall_mem_cons] at hs
      exact hjoins.every hjoins.spellable (h.spellable hs.1) (h'.spellable hs.2.2)
  | _, _, _, .negate hnegates h, hs => by
      simp only [List.forall_mem_cons] at hs
      exact hnegates.every hnegates.spellable (h.spellable hs.2)
  | _, _, _, .member h hname, hs => by
      simp only [List.forall_mem_append, List.forall_mem_cons] at hs
      exact ⟨fun _ => hname.spellable hs.2.2.1, h.spellable hs.1⟩
  | _, _, _, .send h hname h', hs => by
      simp only [List.forall_mem_append, List.forall_mem_cons] at hs
      exact ⟨fun _ => hname.spellable hs.2.2.1, h.spellable hs.1, h'.spellable hs.2.2.2.2.1⟩
  | _, _, _, .index h h', hs => by
      simp only [List.forall_mem_append, List.forall_mem_cons] at hs
      exact ⟨fun _ => trivial, h.spellable hs.1, h'.spellable hs.2.2.1⟩
  | _, _, _, .literal h, hs => h.spellable (hs _ List.mem_cons_self)
  | _, _, _, .name h, hs => fun _ => ⟨(hs _ List.mem_cons_self).wordlike, h⟩
  | _, _, _, .call h h', hs => by
      simp only [List.forall_mem_append, List.forall_mem_cons] at hs
      exact ⟨fun _ => ⟨hs.1.wordlike, h⟩, h'.spellable hs.2.2.1⟩
  | _, _, _, .list h, hs => by
      simp only [List.forall_mem_append, List.forall_mem_cons] at hs
      exact ⟨fun _ => trivial, h.spellable hs.2.1⟩
  | _, _, _, .parens h, hs => by
      simp only [List.forall_mem_append, List.forall_mem_cons] at hs
      exact h.spellable hs.2.1

theorem DerivesAll.spellable : ∀ {s : List Token} {items : List Expr}, DerivesAll s items →
    (∀ t ∈ s, t.Lexed) → EveryAll Spellable items
  | _, _, .none, _ => trivial
  | _, _, .some h, hs => h.spellable hs

theorem DerivesSome.spellable : ∀ {s : List Token} {items : List Expr}, DerivesSome s items →
    (∀ t ∈ s, t.Lexed) → EveryAll Spellable items
  | _, _, .last h, hs => ⟨h.spellable hs, trivial⟩
  | _, _, .more h h', hs => by
      simp only [List.forall_mem_append, List.forall_mem_cons] at hs
      exact ⟨h.spellable hs.1, h'.spellable hs.2.2⟩

end

/-! ## What can be read is derived from its tokens -/

theorem Level.exists_tighter {level : Level} {n : Nat} (h : level.rank = n + 1) :
    ∃ tighter, level.tighter? = some tighter ∧ tighter.rank = n := by
  cases level <;> cases h <;> exact ⟨_, rfl, rfl⟩

theorem Level.rank_injective {level level' : Level} (h : level.rank = level'.rank) :
    level = level' := by
  cases level <;> cases level' <;> first | rfl | cases h

/-- An expression is one of every looser level. -/
theorem Derives.loosen {level level' : Level} {s : List Token} {e : Expr}
    (h : Derives level s e) (hrank : level.rank ≤ level'.rank) : Derives level' s e := by
  obtain ⟨n, hn⟩ := Nat.exists_eq_add_of_le hrank
  induction n generalizing level' with
  | zero => rwa [← Level.rank_injective hn.symm]
  | succ n ih =>
      obtain ⟨tighter, htighter, hrank'⟩ := Level.exists_tighter hn
      exact .ascend htighter (ih (hrank' ▸ Nat.le_add_right _ _) hrank')

/-- In parentheses an expression stands on any level. -/
theorem Derives.inParens {s : List Token} {e : Expr} (h : Derives .assign s e) (level : Level) :
    Derives level (Expr.parens s) e :=
  (Derives.parens h).loosen (Nat.zero_le _)

theorem Level.rank_le_assign (level : Level) : level.rank ≤ Level.assign.rank := by
  cases level <;> decide

theorem Derives.loosest {level : Level} {s : List Token} {e : Expr} (h : Derives level s e) :
    Derives .assign s e :=
  h.loosen level.rank_le_assign

theorem Denotes.token_eq {t : Token} {value : Literal} (h : Denotes t value) (ht : t.Legible) :
    value.token = t := by
  cases h with
  | int n =>
      have hn : n < 0x8000000000000000 := ht
      show Token.int (min (n : Int) 0xFFFFFFFFFFFFFFFF).toNat = .int n
      congr 1
      omega
  | float => exact ht.elim
  | text | yes | no | null => rfl

theorem Labels.label_eq {t : Token} {s : String} (h : Labels t s) (ht : t.Legible) :
    label s = t := by
  cases h with
  | word s =>
      obtain ⟨first, others, hs, hword⟩ := ht
      simp [label, hs, hword.noDigit]
  | int n =>
      obtain ⟨c, others, hs, hdigit⟩ := exists_toString_eq_cons n
      rw [label, digitsValue_toString, hs]
      exact if_pos hdigit

theorem Joins.of_operator (op : Operator) (left right : Expr) :
    ∃ level tighter, Joins left right level (.mark op.mark) (.binary op left right) ∧
      level.tighter? = some tighter := by
  cases op <;> exact ⟨_, _, by constructor, rfl⟩

theorem DerivesAll.of_some {items : List Expr}
    (h : items ≠ [] → DerivesSome (tokensAll items) items) : DerivesAll (tokensAll items) items := by
  cases items with
  | nil => exact .none
  | cons e rest => exact .some (h (List.cons_ne_nil e rest))

mutual

/-- What can be read is derived from its tokens. -/
theorem derives_tokens : ∀ {e : Expr}, e.Every Readable → Derives .assign e.tokens e
  | .literal value, h => by
      obtain ⟨t, ht, hdenotes⟩ := h
      rw [tokens, hdenotes.token_eq ht]
      exact (Derives.literal hdenotes).loosest
  | .list items, h => (Derives.list (.of_some (derivesSome_tokens h.2))).loosest
  | .name s, h => (Derives.name h.2).loosest
  | .member target s, h => by
      obtain ⟨⟨t, ht, hlabels⟩, htarget⟩ := h
      rw [tokens, hlabels.label_eq ht]
      exact (((derives_tokens htarget).inParens .access).member hlabels).loosest
  | .index target key, h =>
      (Derives.index ((derives_tokens h.2.1).inParens .access)
        ((derives_tokens h.2.2).inParens .assign)).loosest
  | .call s arguments, h => (Derives.call h.1.2 (.of_some (derivesSome_tokens h.2))).loosest
  | .send receiver s arguments, h => by
      obtain ⟨⟨t, ht, hlabels⟩, hreceiver, harguments⟩ := h
      rw [tokens, hlabels.label_eq ht]
      exact (((derives_tokens hreceiver).inParens .access).send hlabels
        (.of_some (derivesSome_tokens harguments))).loosest
  | .neg operand, h => (Derives.negate .minus ((derives_tokens h.2).inParens .unary)).loosest
  | .not operand, h => (Derives.negate .bang ((derives_tokens h.2).inParens .unary)).loosest
  | .binary op left right, h => by
      obtain ⟨level, tighter, hjoins, htighter⟩ := Joins.of_operator op left right
      exact (Derives.join hjoins htighter ((derives_tokens h.2.1).inParens level)
        ((derives_tokens h.2.2).inParens tighter)).loosest
  | .and left right, h =>
      (Derives.join .and rfl ((derives_tokens h.2.1).inParens .and)
        ((derives_tokens h.2.2).inParens .equality)).loosest
  | .or left right, h =>
      (Derives.join .or rfl ((derives_tokens h.2.1).inParens .or)
        ((derives_tokens h.2.2).inParens .and)).loosest
  | .choice test yes no, h =>
      (Derives.choice ((derives_tokens h.2.1).inParens .or)
        ((derives_tokens h.2.2.1).inParens .assign)
        ((derives_tokens h.2.2.2).inParens .assign)).loosest
  | .assign place value, h =>
      .assign ((derives_tokens h.2.1).inParens .choice) h.1
        ((derives_tokens h.2.2).inParens .assign)

theorem derivesSome_tokens : ∀ {items : List Expr}, EveryAll Readable items → items ≠ [] →
    DerivesSome (tokensAll items) items
  | [], _, hitems => absurd rfl hitems
  | [e], h, _ => by
      rw [tokensAll, List.append_nil]
      exact .last ((derives_tokens h.1).inParens .assign)
  | e :: e' :: rest, h, _ =>
      .more ((derives_tokens h.1).inParens .assign) (derivesSome_tokens h.2 (List.cons_ne_nil _ _))

end

/-- All of the tokens can be spelled. -/
def AllLegible (s : List Token) : Prop := ∀ t ∈ s, t.Legible

@[simp] theorem allLegible_nil : AllLegible [] := List.forall_mem_nil _

@[simp] theorem allLegible_cons {t : Token} {s : List Token} :
    AllLegible (t :: s) ↔ t.Legible ∧ AllLegible s :=
  List.forall_mem_cons

@[simp] theorem allLegible_append {s s' : List Token} :
    AllLegible (s ++ s') ↔ AllLegible s ∧ AllLegible s' :=
  List.forall_mem_append

@[simp] theorem Token.legible_mark (m : Mark) : (Token.mark m).Legible := trivial

@[simp] theorem Token.legible_word (s : String) : (Token.word s).Legible ↔ Wordlike s := Iff.rfl

@[simp] theorem allLegible_parens {s : List Token} : AllLegible (parens s) ↔ AllLegible s := by
  simp [parens]

mutual

/-- The tokens of what can be read are legible. -/
theorem legible_tokens : ∀ {e : Expr}, e.Every Readable → AllLegible e.tokens
  | .literal value, h => by
      obtain ⟨t, ht, hdenotes⟩ := h
      simp [tokens, hdenotes.token_eq ht, ht]
  | .list items, h => by simp [tokens, legibleAll_tokens h.2]
  | .name s, ⟨hs, _⟩ => by simp [tokens, hs]
  | .member target s, h => by
      obtain ⟨⟨t, ht, hlabels⟩, htarget⟩ := h
      simp [tokens, hlabels.label_eq ht, ht, legible_tokens htarget]
  | .index target key, h => by simp [tokens, legible_tokens h.2.1, legible_tokens h.2.2]
  | .call s arguments, h => by simp [tokens, h.1.1, legibleAll_tokens h.2]
  | .send receiver s arguments, h => by
      obtain ⟨⟨t, ht, hlabels⟩, hreceiver, harguments⟩ := h
      simp [tokens, hlabels.label_eq ht, ht, legible_tokens hreceiver,
        legibleAll_tokens harguments]
  | .neg operand, h | .not operand, h => by simp [tokens, legible_tokens h.2]
  | .binary op left right, h | .and left right, h | .or left right, h | .assign left right, h => by
      simp [tokens, legible_tokens h.2.1, legible_tokens h.2.2]
  | .choice test yes no, h => by
      simp [tokens, legible_tokens h.2.1, legible_tokens h.2.2.1, legible_tokens h.2.2.2]

theorem legibleAll_tokens : ∀ {items : List Expr}, EveryAll Readable items →
    AllLegible (tokensAll items)
  | [], _ => by simp [tokensAll]
  | [e], h => by simp [tokensAll, legible_tokens h.1]
  | e :: e' :: rest, h => by
      rw [tokensAll]
      simp [legible_tokens h.1, legibleAll_tokens h.2]

end

/-! ## Reading back -/

/-- What can be read is read back from what is written. -/
theorem parse_written {e : Expr} (h : e.Every Readable) : parse e.written = .ok e :=
  parse_of_tokenize (tokenize_spelled (legible_tokens h)) (derives_tokens h)

/-- What a text reads as can be read, but for doubles. -/
theorem spellable_of_parse {text : String} {e : Expr} (h : parse text = .ok e) :
    e.Every Spellable := by
  obtain ⟨tokens, htokens, hparse⟩ := Except.bind_eq_ok h
  obtain ⟨s, rfl, hs⟩ := exists_eq_append_finish htokens
  have hlexed : ∀ t ∈ s, t.Lexed := by
    intro t ht
    rcases legible_of_tokensFrom htokens (List.mem_append_left _ ht) with h | h | rfl
    · exact .inl h
    · exact .inr h
    · exact absurd ht hs
  exact (derives_of_parseTokens hs hparse).spellable hlexed

/-- What a text reads as, without doubles, is read back from what is written. -/
theorem parse_written_of_parse {text : String} {e : Expr} (h : parse text = .ok e)
    (hfloat : e.Every NoFloat) : parse e.written = .ok e :=
  parse_written ((spellable_of_parse h).imp (fun _ hspellable => hspellable) hfloat)

/-- The parser and the grammar agree. In front of the only end of the input the tokens parse as an
expression exactly when it is derived from them, which is one expression at most, and other tokens
are reported. The parser comes to an end on all tokens: what it reports is a fault of theirs, and
never that its fuel is used up. What a text reads as, without doubles, is read back from what is
written of it. -/
theorem parse_iff_derives :
    (∀ tokens : List Token, Token.finish ∉ tokens →
      (∀ e, parseTokens (tokens ++ [.finish]) = .ok e ↔ Derives .assign tokens e) ∧
      (∀ e e', Derives .assign tokens e → Derives .assign tokens e' → e = e') ∧
      ((∀ e, ¬ Derives .assign tokens e) →
        ∃ fault, parseTokens (tokens ++ [.finish]) = .error fault ∧ OfTokens fault)) ∧
    (∀ tokens : List Token, (∃ e, parseTokens tokens = .ok e) ∨
      ∃ fault, parseTokens tokens = .error fault ∧ OfTokens fault) ∧
    ∀ (text : String) (e : Expr), parse text = .ok e → e.Every NoFloat →
      parse e.written = .ok e := by
  have hends (tokens : List Token) : (∃ e, parseTokens tokens = .ok e) ∨
      ∃ fault, parseTokens tokens = .error fault ∧ OfTokens fault := by
    cases h : parseTokens tokens with
    | ok e => exact .inl ⟨e, rfl⟩
    | error fault => exact .inr ⟨fault, rfl, parseTokens_reports h⟩
  refine ⟨fun tokens hfinish => ⟨fun e => ?_, fun e e' => Derives.unique, fun hnone => ?_⟩, hends,
    fun text e => parse_written_of_parse⟩
  · exact ⟨derives_of_parseTokens hfinish, parseTokens_of_derives⟩
  · obtain ⟨e, hparsed⟩ | hfault := hends (tokens ++ [.finish])
    · exact absurd (derives_of_parseTokens hfinish hparsed) (hnone e)
    · exact hfault

/-- Words are names where an operand stands, and operators behind it. -/
theorem parse_iff_derives_words :
    Derives .assign [.word "or", .word "or", .word "and"] (.or (.name "or") (.name "and")) ∧
      parse (Expr.or (.name "or") (.name "and")).written =
        .ok (.or (.name "or") (.name "and")) := by
  obtain ⟨hgrammar, -, hwritten⟩ := parse_iff_derives
  have htokens : parseTokens ([.word "or", .word "or", .word "and"] ++ [.finish]) =
      .ok (.or (.name "or") (.name "and")) := by cbv
  have htext : parse "or or and" = .ok (.or (.name "or") (.name "and")) := by cbv
  exact ⟨((hgrammar _ (by simp)).1 _).mp htokens,
    hwritten "or or and" _ htext ⟨trivial, trivial, trivial⟩⟩

end ScriptTree.Expr
