import DefineBundle.Proofs.Script.PlainForm.Trivia
import DefineBundle.Proofs.Script.Reading

/-!
# Readers of a text and of its plain form

A position in a text matches one in the plain form when the same is in front of them and behind
them. Run from matching positions, readers made of the same steps come to matching positions again,
and what they read is the same up to how it is written. For the steps this follows from what is read
of a token, and for what is made of steps from the steps.
-/
namespace DefineBundle.Script.PlainForm

open DefineBundle.Text DefineBundle.Text.PlainAscii DefineBundle.Script.Literal

section Positions

variable {text cs ds : List Char} {c c' : Cursor}

/-- What the positions of one reading share is alike in the plain form: places where attempts have
failed are places in the text, told by how much is behind them. -/
structure Accords (text : List Char) (c c' : Cursor) : Prop where
  budget : c'.budget = c.budget
  openDefaults : c'.openDefaults = c.openDefaults
  failures : ∃ places : List (List Char), (∀ p ∈ places, p <:+ text) ∧
    c.failures = places.map List.length ∧ c'.failures = places.map fun p => (plain p).length

/-- The positions are on the same token, in a text and in its plain form. -/
structure Matches (text : List Char) (c c' : Cursor) : Prop extends Accords text c c' where
  token : c'.token = c.token.respelled
  gap : c'.gap = c.gap
  here : c'.here = plain c.here
  rest : c'.rest = plain c.rest
  read : Token.next? c.here = some (c.token, c.rest)
  behind : Behind text c.here
  behindRest : Behind text c.rest

theorem relation_moved (h : Accords text c c') (hcs : Behind text cs) (isFresh : Bool) :
    Option.Rel (Matches text) (Parser.moved c isFresh cs) (Parser.moved c' isFresh (plain cs)) := by
  obtain ⟨hskip, hhere⟩ :=
    agrees_skip (m := .between) (e := false) nofun ⟨isFresh, false, false⟩ hcs.steady
  unfold Parser.moved
  rw [hskip]
  cases hx : Trivia.skip .between ⟨isFresh, false, false⟩ cs with
  | none => exact .none
  | some z =>
      obtain ⟨gap, here⟩ := z
      have hbehind := hhere _ hx
      obtain ⟨hnext, hrest⟩ := agrees_next? hbehind.steady
      simp only [Option.map_some, Prod.map, id, Option.bind_eq_bind, Option.bind_some, hnext]
      cases hy : Token.next? here with
      | none => exact .none
      | some w =>
          obtain ⟨token, rest⟩ := w
          exact .some ⟨⟨h.budget, h.openDefaults, h.failures⟩, rfl, rfl, rfl, rfl, hy,
            hcs.trans hbehind, (hcs.trans hbehind).trans (hrest _ hy)⟩

theorem length_plain_lt (hne : ds ≠ []) (cs : List Char) :
    (plain cs).length < (plain (ds ++ cs)).length := by
  obtain ⟨d, ds, rfl⟩ := List.exists_cons_of_ne_nil hne
  have hpos := length_encodeChar_pos d
  simp only [plain, List.cons_append, List.flatMap_cons, List.flatMap_append, List.length_append]
  omega

theorem length_plain_eq_iff (hcs : cs <:+ text) (hds : ds <:+ text) :
    (plain cs).length = (plain ds).length ↔ cs.length = ds.length := by
  have hsuffix : ∀ {as bs : List Char}, as <:+ bs →
      ((plain as).length = (plain bs).length ↔ as.length = bs.length) := by
    rintro as bs ⟨es, rfl⟩
    cases es with
    | nil => exact ⟨fun _ => rfl, fun _ => rfl⟩
    | cons e es =>
        have hlt := length_plain_lt (List.cons_ne_nil e es) as
        refine ⟨fun he => absurd he (Nat.ne_of_lt hlt), fun he => ?_⟩
        rw [List.length_append, List.length_cons] at he
        omega
  rcases Nat.le_total cs.length ds.length with hle | hle
  · exact hsuffix (List.suffix_of_suffix_length_le hcs hds hle)
  · rw [eq_comm, hsuffix (List.suffix_of_suffix_length_le hds hcs hle), eq_comm]

theorem contains_failures (h : Accords text c c') (hcs : cs <:+ text) :
    c'.failures.contains (plain cs).length = c.failures.contains cs.length := by
  obtain ⟨places, hplaces, hc, hc'⟩ := h.failures
  rw [hc, hc', Bool.eq_iff_iff]
  simp only [List.contains_iff_mem, List.mem_map]
  constructor
  · rintro ⟨p, hp, he⟩
    exact ⟨p, hp, (length_plain_eq_iff (hplaces p hp) hcs).mp he⟩
  · rintro ⟨p, hp, he⟩
    exact ⟨p, hp, (length_plain_eq_iff (hplaces p hp) hcs).mpr he⟩

end Positions

/-- From these positions the readers come to matching positions, and what the second one reads is
what the first one reads up to `f`. -/
def ParallelAt (text : List Char) {α β : Type} (f : α → β) (p : Parser α) (p' : Parser β)
    (c c' : Cursor) : Prop :=
  (p' c').1 = (p c).1.map f ∧ Matches text (p c).2 (p' c').2

/-- The readers go together from all matching positions. -/
def Parallel (text : List Char) {α β : Type} (f : α → β) (p : Parser α) (p' : Parser β) : Prop :=
  ∀ c c', Matches text c c' → ParallelAt text f p p' c c'

section Tokens

variable {t u : Token} {w : String}

/-- A token that is written in one way only. -/
def isFixed : Token → Bool
  | .name _ _ | .string _ _ _ => false
  | _ => true

theorem respelled_beq (hu : isFixed u = true) (t : Token) : (t.respelled == u) = (t == u) := by
  cases t with
  | name | string =>
      cases u with
      | name | string => cases hu
      | _ => rfl
  | _ => rfl

theorem isMark_respelled (m : Mark) (t : Token) : t.respelled.isMark m = t.isMark m := by
  cases t <;> rfl

theorem isWord_respelled (hw : foreign w.toList = false) (t : Token) :
    t.respelled.isWord w = t.isWord w := by
  cases t with
  | name n e =>
      by_cases hn : n = w
      · subst hn
        simp only [Token.respelled, Token.isWord, hw, Bool.or_false]
      · simp only [Token.respelled, Token.isWord, beq_false_of_ne hn, Bool.false_and]
  | _ => rfl

theorem contains_eq_false {words : List String} (hwords : ∀ u ∈ words, foreign u.toList = false)
    (hw : foreign w.toList = true) : words.contains w = false :=
  Bool.eq_false_iff.mpr fun hmem => by
    rw [hwords w (List.contains_iff_mem.mp hmem)] at hw
    cases hw

end Tokens

namespace Parallel

open DefineBundle.Script.Parser

variable {text cs : List Char} {α α' β β' : Type} {f : α → α'} {g : β → β'}

theorem pure {a : α} {b : α'} (h : b = f a) : Parallel text f (Pure.pure a) (Pure.pure b) :=
  fun _ _ hc => ⟨congrArg some h, hc⟩

theorem failure : Parallel text f failure failure :=
  fun _ _ hc => ⟨rfl, hc⟩

theorem outcome {p : Parser α} {p' : Parser α'} (h : Parallel text f p p') {c c' : Cursor}
    (hc : Matches text c c') :
    ∃ x d d', p c = (x, d) ∧ p' c' = (x.map f, d') ∧ Matches text d d' := by
  obtain ⟨hresult, hmatch⟩ := h c c' hc
  exact ⟨_, _, _, rfl, Prod.ext hresult rfl, hmatch⟩

theorem bind {p : Parser α} {p' : Parser α'} {k : α → Parser β} {k' : α' → Parser β'}
    (h : Parallel text f p p') (hk : ∀ a, Parallel text g (k a) (k' (f a))) :
    Parallel text g (p >>= k) (p' >>= k') := by
  intro c c' hc
  obtain ⟨x, d, d', hp, hp', hmatch⟩ := h.outcome hc
  simp only [ParallelAt, Bind.bind, OptionT.bind, OptionT.mk, StateT.bind, hp, hp']
  cases x with
  | none => exact ⟨rfl, hmatch⟩
  | some a => exact hk a d d' hmatch

theorem failure_bind {k : α → Parser β} {k' : α' → Parser β'} :
    Parallel text g (Alternative.failure >>= k) (Alternative.failure >>= k') :=
  fun _ _ hc => ⟨rfl, hc⟩

theorem map {p : Parser α} {p' : Parser α'} {m : α → β} {m' : α' → β'} (h : Parallel text f p p')
    (hm : ∀ a, m' (f a) = g (m a)) : Parallel text g (m <$> p) (m' <$> p') :=
  h.bind fun a => pure (hm a)

theorem ite {b : Bool} {p q : Parser α} {p' q' : Parser α'} (h : Parallel text f p p')
    (h' : Parallel text f q q') :
    Parallel text f (if b = true then p else q) (if b = true then p' else q') := by
  cases b
  · exact h'
  · exact h

/-- One of two readers, and the same after both. -/
theorem iteThen {b : Bool} {p q : Parser α} {p' q' : Parser α'} {k : α → Parser β}
    {k' : α' → Parser β'} (h : Parallel text f p p') (h' : Parallel text f q q')
    (hk : ∀ a, Parallel text g (k a) (k' (f a))) :
    Parallel text g (if b = true then p >>= k else q >>= k)
      (if b = true then p' >>= k' else q' >>= k') :=
  ite (h.bind hk) (h'.bind hk)

/-- A second condition that is read only where the first one holds. -/
theorem both {p q p' q' : Parser Bool} (h : Parallel text id p p') (h' : Parallel text id q q') :
    Parallel text id (p <&&> q) (p' <&&> q') := by
  refine h.bind fun b => ?_
  cases b
  · exact pure rfl
  · exact h'

theorem look {F : Cursor → α} {F' : Cursor → α'} (h : ∀ c c', Matches text c c' → F' c' = f (F c)) :
    Parallel text f (look F) (look F') :=
  fun c c' hc => ⟨congrArg some (h c c' hc), hc⟩

theorem look_bind {F : Cursor → α} {F' : Cursor → α'} {k : α → Parser β} {k' : α' → Parser β'}
    (h : ∀ c c', Matches text c c' → Parallel text g (k (F c)) (k' (F' c'))) :
    Parallel text g (Parser.look F >>= k) (Parser.look F' >>= k') :=
  fun c c' hc => h c c' hc c c' hc

theorem get_bind {k : Cursor → Parser β} {k' : Cursor → Parser β'} {c c' : Cursor}
    (h : ParallelAt text g (k c) (k' c') c c') : ParallelAt text g (get >>= k) (get >>= k') c c' :=
  h

theorem token : Parallel text Token.respelled token token :=
  look fun _ _ hc => hc.token

/-- The token at the positions is known when the readers go on. -/
theorem token_bind {k : Token → Parser β} {k' : Token → Parser β'}
    (h : ∀ c c', Matches text c c' → ParallelAt text g (k c.token) (k' c.token.respelled) c c') :
    Parallel text g (Parser.token >>= k) (Parser.token >>= k') := by
  intro c c' hc
  have hk := h c c' hc
  rw [← hc.token] at hk
  exact hk

theorem isFresh : Parallel text id isFresh isFresh :=
  look fun _ _ hc => congrArg Gap.isFresh hc.gap

theorem isOnLine : Parallel text id (not <$> Parser.isFresh) (not <$> Parser.isFresh) :=
  isFresh.map fun _ => rfl

theorem require (b : Bool) : Parallel text id (require b) (require b) := by
  cases b
  · exact failure
  · exact pure rfl

theorem resume (hcs : Behind text cs) : Parallel text id (resume cs) (resume (plain cs)) := by
  intro c c' hc
  have hmoved := relation_moved hc.toAccords hcs false
  unfold ParallelAt Parser.resume
  generalize Parser.moved c false cs = x at hmoved
  generalize Parser.moved c' false (plain cs) = y at hmoved
  cases hmoved with
  | none => exact ⟨rfl, hc⟩
  | some hd => exact ⟨rfl, hd⟩

theorem advance : Parallel text id advance advance := by
  intro c c' hc
  have hresume := resume hc.behindRest c c' hc
  rwa [← hc.rest] at hresume

/-- A token that is passed if it is there. -/
theorem advanceIf {b : Bool} {k : Unit → Parser β} {k' : Unit → Parser β'}
    (h : Parallel text g (k ()) (k' ())) :
    Parallel text g (if b = true then Parser.advance >>= k else k ())
      (if b = true then Parser.advance >>= k' else k' ()) :=
  ite (advance.bind fun _ => h) h

theorem following_bind {k : Option Cursor → Parser β} {k' : Option Cursor → Parser β'}
    (h : ∀ n n', Option.Rel (Matches text) n n' → Parallel text g (k n) (k' n')) :
    Parallel text g (following >>= k) (following >>= k') := by
  refine look_bind fun c c' hc => h _ _ ?_
  rw [hc.rest]
  exact relation_moved hc.toAccords hc.behindRest false

theorem followingToken : Parallel text Token.respelled followingToken followingToken := by
  refine look fun c c' hc => ?_
  have hmoved := relation_moved hc.toAccords hc.behindRest false
  rw [hc.rest]
  generalize moved c false c.rest = x at hmoved
  generalize moved c' false (plain c.rest) = y at hmoved
  cases hmoved with
  | none => rfl
  | some hd => exact hd.token

theorem eat {isWanted : Token → Bool} (h : ∀ t : Token, isWanted t.respelled = isWanted t) :
    Parallel text id (eat isWanted) (eat isWanted) := by
  refine token.bind fun t => ?_
  rw [h]
  exact ite (advance.bind fun _ => pure rfl) (pure rfl)

theorem eatMark (m : Mark) : Parallel text id (eatMark m) (eatMark m) :=
  eat (isMark_respelled m)

theorem eatWord {w : String} (hw : foreign w.toList = false) :
    Parallel text id (eatWord w) (eatWord w) :=
  eat (isWord_respelled hw)

theorem eatToken {u : Token} (hu : isFixed u = true) :
    Parallel text id (Parser.eat (· == u)) (Parser.eat (· == u)) :=
  eat (respelled_beq hu)

theorem expectMark (m : Mark) : Parallel text id (expectMark m) (expectMark m) :=
  (eatMark m).bind fun _ => require _

theorem expectWord {w : String} (hw : foreign w.toList = false) :
    Parallel text id (expectWord w) (expectWord w) :=
  (eatWord hw).bind fun _ => require _

theorem atMark (m : Mark) : Parallel text id (atMark m) (atMark m) :=
  look fun _ _ hc => (congrArg _ hc.token).trans (isMark_respelled m _)

theorem atWord {w : String} (hw : foreign w.toList = false) :
    Parallel text id (atWord w) (atWord w) :=
  look fun _ _ hc => (congrArg _ hc.token).trans (isWord_respelled hw _)

/-- Whether the line before the token says that what follows it has no effect. -/
theorem isEffectFree : Parallel text id (Parser.look fun c => c.gap.isEffectFree)
    (Parser.look fun c => c.gap.isEffectFree) :=
  look fun _ _ hc => congrArg Gap.isEffectFree hc.gap

theorem endStatement : Parallel text id endStatement endStatement := by
  refine Parallel.bind (f := id) (look fun c c' hc => ?_) fun _ =>
    (require _).bind fun _ => (eatMark _).bind fun _ => pure rfl
  rw [hc.token, hc.gap, isMark_respelled, isMark_respelled, respelled_beq rfl]
  rfl

theorem attempt {p : Parser α} {p' : Parser α'} (h : Parallel text f p p') :
    Parallel text (Option.map f) (attempt p) (attempt p') := by
  intro c c' hc
  obtain ⟨x, d, d', hp, hp', hmatch⟩ := h.outcome hc
  have htried := contains_failures hc.toAccords hc.behind.suffix
  rw [← hc.here] at htried
  unfold ParallelAt Parser.attempt
  dsimp only
  rw [htried]
  split
  · exact ⟨rfl, hc⟩
  · rw [hp, hp']
    cases x with
    | some a => exact ⟨rfl, hmatch⟩
    | none =>
        obtain ⟨places, hplaces, hd, hd'⟩ := hmatch.failures
        refine ⟨rfl, { hc with failures := ⟨c.here :: places, ?_, ?_, ?_⟩ }⟩
        · exact List.forall_mem_cons.mpr ⟨hc.behind.suffix, hplaces⟩
        · exact congrArg (c.here.length :: ·) hd
        · show c'.here.length :: d'.failures = _
          rw [hd', hc.here]
          rfl

theorem iterate {step : α → Parser (α ⊕ β)} {step' : α' → Parser (α' ⊕ β')}
    (h : ∀ a, Parallel text (Sum.map f g) (step a) (step' (f a))) (n : Nat) (a : α) :
    Parallel text g (iterate step n a) (iterate step' n (f a)) := by
  induction n generalizing a with
  | zero => exact failure
  | succ n ih =>
      refine (h a).bind fun s => ?_
      cases s with
      | inl a => exact ih a
      | inr b => exact pure rfl

theorem loop {a : α} {a' : α'} {step : α → Parser (α ⊕ β)} {step' : α' → Parser (α' ⊕ β')}
    (ha : a' = f a) (h : ∀ a, Parallel text (Sum.map f g) (step a) (step' (f a))) :
    Parallel text g (loop a step) (loop a' step') := by
  subst ha
  refine look_bind fun c c' hc => ?_
  rw [hc.budget]
  exact iterate h c.budget a

theorem commaSeparated {item item' : Parser Tree} (close : Mark)
    (h : Parallel text Tree.respelled item item') :
    Parallel text (List.map Tree.respelled) (commaSeparated close item)
      (commaSeparated close item') := by
  have hreverse : ∀ ts : List Tree, Parallel text
      (Sum.map (List.map Tree.respelled) (List.map Tree.respelled)) (Pure.pure (.inr ts.reverse))
      (Pure.pure (.inr (ts.map Tree.respelled).reverse)) :=
    fun _ => pure (congrArg Sum.inr List.map_reverse.symm)
  refine loop (f := List.map Tree.respelled) rfl fun acc => (eatMark _).bind fun isClosed => ?_
  refine ite (hreverse acc) (h.bind fun t => (eatMark _).bind fun hasMore => ite (pure rfl) ?_)
  exact (expectMark _).bind fun _ => hreverse (t :: acc)

end Parallel

end DefineBundle.Script.PlainForm
