import DefineBundle.Script.Parse

/-!
# Reading item by item

A reader moves over a text token by token. What it passes is written down as a list of items,
without the space between them, and a way from one position to another along such a list is all that
the grammar has to know of a text.
-/
namespace DefineBundle.Script

/-- What a plain script is made of. -/
inductive Item
  | token (token : Token)
  /-- A string literal, however it is written. -/
  | string (value : String) (loneSurrogates : Bool)
  | regex (pattern flags : String)
  /-- No line ends between the items around it. -/
  | glue
  deriving DecidableEq, Repr

/-- No comment in front of the position says anything. -/
def Cursor.IsQuiet (c : Cursor) : Prop :=
  c.gap.isPure = false ∧ c.gap.isEffectFree = false

namespace Item

/-- The position `d` is the one behind the item, of which `c` is at the start. -/
def Passes : Item → Cursor → Cursor → Prop
  | token t, c, d => c.IsQuiet ∧ c.token = t ∧ Parser.moved c false c.rest = some d
  | string v l, c, d =>
      c.IsQuiet ∧ (∃ raw, c.token = .string v l raw) ∧ Parser.moved c false c.rest = some d
  | regex p f, c, d => c.IsQuiet ∧ c.token = .operator .div ∧
      ∃ rest, Literal.regex? (c.here.drop 1) = some (p, f, rest) ∧
        Parser.moved c false rest = some d
  | glue, c, d => c.gap.isFresh = false ∧ c = d

abbrev mark (m : Mark) : Item :=
  token (.mark m)

abbrev word (w : String) : Item :=
  token (.name w false)

end Item

/-- The way from one position to another passes these items. -/
def Along : List Item → Cursor → Cursor → Prop
  | [], c, d => c = d
  | i :: is, c, d => ∃ m, i.Passes c m ∧ Along is m d

theorem along_append {is js : List Item} {c d : Cursor} :
    Along (is ++ js) c d ↔ ∃ m, Along is c m ∧ Along js m d := by
  induction is generalizing c with
  | nil => simp [Along]
  | cons i is ih =>
      simp only [List.cons_append, Along, ih]
      constructor
      · rintro ⟨m, hi, e, hm, he⟩
        exact ⟨e, ⟨m, hi, hm⟩, he⟩
      · rintro ⟨e, ⟨m, hi, hm⟩, he⟩
        exact ⟨m, hi, e, hm, he⟩

theorem along_singleton {i : Item} {c d : Cursor} : Along [i] c d ↔ i.Passes c d := by
  simp [Along]

/-- Two positions of one reading, between which no default was left open and no attempt failed. -/
def Cursor.Shares (c d : Cursor) : Prop :=
  d.budget = c.budget ∧ d.openDefaults = c.openDefaults ∧ d.failures = c.failures

theorem Cursor.Shares.refl (c : Cursor) : c.Shares c :=
  ⟨rfl, rfl, rfl⟩

theorem Cursor.Shares.trans {c d e : Cursor} (h : c.Shares d) (h' : d.Shares e) : c.Shares e :=
  ⟨h'.1.trans h.1, h'.2.1.trans h.2.1, h'.2.2.trans h.2.2⟩

theorem Parser.shares_of_moved {c d : Cursor} {isFresh : Bool} {cs : List Char}
    (h : moved c isFresh cs = some d) : c.Shares d := by
  unfold moved at h
  obtain ⟨⟨gap, here⟩, -, h⟩ := Option.bind_eq_some_iff.mp h
  obtain ⟨⟨token, rest⟩, -, h⟩ := Option.bind_eq_some_iff.mp h
  obtain rfl := Option.some.inj h
  exact ⟨rfl, rfl, rfl⟩

/-- Where a move leads depends on the position only as far as it is shared. -/
theorem Parser.moved_eq_of_shares {c d : Cursor} (h : c.Shares d) (isFresh : Bool)
    (cs : List Char) : moved d isFresh cs = moved c isFresh cs := by
  obtain ⟨hb, ho, hf⟩ := h
  unfold moved
  rw [hb, ho, hf]

theorem Item.Passes.shares {i : Item} {c d : Cursor} (h : i.Passes c d) : c.Shares d := by
  cases i with
  | token t => exact Parser.shares_of_moved h.2.2
  | string v l => exact Parser.shares_of_moved h.2.2
  | regex p f =>
      obtain ⟨-, -, rest, -, hm⟩ := h
      exact Parser.shares_of_moved hm
  | glue => exact h.2 ▸ .refl c

theorem Along.shares {is : List Item} {c d : Cursor} (h : Along is c d) : c.Shares d := by
  induction is generalizing c with
  | nil => exact h ▸ .refl c
  | cons i is ih =>
      obtain ⟨m, hi, hm⟩ := h
      exact hi.shares.trans (ih hm)

theorem Along.budget_eq {is : List Item} {c d : Cursor} (h : Along is c d) : d.budget = c.budget :=
  h.shares.1

namespace Parser

variable {α β : Type} {c d m : Cursor}

theorem run_pure (a : α) (c : Cursor) : (pure a : Parser α) c = (some a, c) :=
  rfl

theorem run_bind {p : Parser α} {f : α → Parser β} {a : α} (h : p c = (some a, d)) :
    (p >>= f) c = f a d := by
  simp only [bind, OptionT.bind, OptionT.mk, StateT.bind, h]

theorem run_pure_bind (a : α) (f : α → Parser β) (c : Cursor) : (pure a >>= f) c = f a c :=
  rfl

theorem run_map {p : Parser α} {f : α → β} {a : α} (h : p c = (some a, d)) :
    (f <$> p) c = (some (f a), d) :=
  run_bind h

theorem run_require {b : Bool} (h : b = true) (c : Cursor) : require b c = (some (), c) := by
  rw [require, if_pos h]
  rfl

theorem run_token_bind (f : Token → Parser β) (c : Cursor) : (token >>= f) c = f c.token c :=
  rfl

theorem run_look_bind (f : Cursor → α) (k : α → Parser β) (c : Cursor) :
    (look f >>= k) c = k (f c) c :=
  rfl

theorem run_get_bind (k : Cursor → Parser β) (c : Cursor) :
    ((get : Parser Cursor) >>= k) c = k c c :=
  rfl

theorem run_resume {cs : List Char} (h : moved c false cs = some d) :
    resume cs c = (some (), d) := by
  rw [resume, h]

theorem run_advance (h : moved c false c.rest = some d) : advance c = (some (), d) :=
  run_resume h

theorem run_eat {isWanted : Token → Bool} (ht : isWanted c.token = true)
    (h : moved c false c.rest = some d) : eat isWanted c = (some true, d) := by
  rw [eat, run_token_bind, if_pos ht, run_bind (run_advance h)]
  rfl

theorem run_eat_not {isWanted : Token → Bool} (ht : isWanted c.token = false) :
    eat isWanted c = (some false, c) := by
  rw [eat, run_token_bind, if_neg (by simp [ht])]
  rfl

theorem isMark_mark (k : Mark) : (Token.mark k).isMark k = true := by
  simp [Token.isMark]

theorem run_eatMark {k : Mark} (h : (Item.mark k).Passes c d) : eatMark k c = (some true, d) :=
  run_eat (by rw [h.2.1, isMark_mark]) h.2.2

theorem run_expectMark {k : Mark} (h : (Item.mark k).Passes c d) :
    expectMark k c = (some (), d) := by
  rw [expectMark, run_bind (run_eatMark h)]
  exact run_require rfl d

theorem run_eatWord {w : String} (h : (Item.word w).Passes c d) : eatWord w c = (some true, d) :=
  run_eat (by simp [h.2.1, Token.isWord]) h.2.2

theorem run_expectWord {w : String} (h : (Item.word w).Passes c d) :
    expectWord w c = (some (), d) := by
  rw [expectWord, run_bind (run_eatWord h)]
  exact run_require rfl d

theorem run_advance_token {t : Token} (h : (Item.token t).Passes c d) : advance c = (some (), d) :=
  run_advance h.2.2

theorem run_iterate_inl {step : α → Parser (α ⊕ β)} {a a' : α} (h : step a c = (some (.inl a'), d))
    (n : Nat) : iterate step (n + 1) a c = iterate step n a' d := by
  rw [iterate, run_bind h]

theorem run_iterate_inr {step : α → Parser (α ⊕ β)} {a : α} {b : β}
    (h : step a c = (some (.inr b), d)) (n : Nat) : iterate step (n + 1) a c = (some b, d) := by
  rw [iterate, run_bind h]
  rfl

theorem run_loop (a : α) (step : α → Parser (α ⊕ β)) (c : Cursor) :
    loop a step c = iterate step c.budget a c :=
  rfl

theorem run_loop_of_inr {step : α → Parser (α ⊕ β)} {a : α} {b : β} (hbudget : 0 < c.budget)
    (h : step a c = (some (.inr b), d)) : loop a step c = (some b, d) := by
  obtain ⟨n, hn⟩ := Nat.exists_eq_succ_of_ne_zero (Nat.pos_iff_ne_zero.mp hbudget)
  rw [run_loop, hn, run_iterate_inr h]

end Parser

end DefineBundle.Script
