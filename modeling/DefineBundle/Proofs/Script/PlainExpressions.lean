import DefineBundle.Proofs.Script.PlainLists
import Mathlib.Data.List.Infix

/-!
# Reading plain expressions

A plain expression is read back from its items, whatever stands around it: first what begins a chain
of members and calls, then the chain, then operators from the strongest to the weakest.
-/
namespace DefineBundle.Script

open DefineBundle.Script.Tree DefineBundle.Script.Parser

variable {g : Grammar} {s : Scope} {c d m : Cursor} {n b : Nat} {mayBeArrow : Bool}

/-- Whether an expression goes on from another one with a member or a call. -/
def Tree.isLink : Tree → Bool
  | node (.member _ _) _ | node (.index _) _ | node (.call _ _) _ => true
  | _ => false

theorem isWord_of_isPlainName {k w : String} (hk : isPlainName k = true)
    (hw : isPlainName w = false) : (Token.name k false).isWord w = false := by
  simp [Token.isWord, ne_of_isPlainName hk hw]

theorem run_passAs {form : Form} (h : moved c false c.rest = some d) :
    passAs form c = (some (leaf form), d) := by
  rw [passAs, run_bind (run_advance h)]
  rfl

/-- The words that begin a chain in ways of their own. -/
def chainWords : List String := ["new", "super", "import"]

theorem chainStart_eq {t : Token} (ht : c.token = t) (hno : ∀ w ∈ chainWords, t.isWord w = false) :
    chainStart g s mayBeArrow c = primary g s mayBeArrow c := by
  simp only [chainWords, List.forall_mem_cons] at hno
  simp only [chainStart, run_token_bind, ht, hno.1, hno.2.1, hno.2.2.1, Bool.false_eq_true,
    if_false]

theorem run_nested (hg : Sound g n) (hs : s.IsPlain) {t : Tree} {is : List Item}
    (hspell : spell? t = some is) (ht : t.isExpression = true) (h : Along is c d)
    (hd : d.token.closes = true) (hcomma : d.token.isMark .comma = false) (hn : is.length < n)
    (hb : is.length < c.budget) : nestedExpression g s c = (some t, d) := by
  have hat : atMark .comma d = (some false, d) := by
    rw [atMark, look, hcomma]
  rw [nestedExpression, run_bind (hg.argument hs.bracketed hspell ht h hd hn hb), expression,
    run_bind hat, if_neg Bool.false_ne_true, run_pure]

theorem run_parenthesis (hg : Sound g n) (hs : s.IsPlain) {e : Tree} {i : List Item}
    (hspell : spell? e = some i) (ht : e.isExpression = true)
    (h : Along (.mark .parenOpen :: (i ++ [.mark .parenClose])) c d)
    (hd : d.token.isMark .arrow = false) (hn : i.length < n) (hb : i.length < c.budget) :
    parenthesis g s mayBeArrow c = (some (node .parens [e]), d) := by
  obtain ⟨c', hopen, h⟩ := h
  obtain ⟨m, hm, hclose⟩ := along_append.mp h
  rw [along_singleton] at hclose
  have hbudget := hopen.shares.1
  obtain ⟨-, hopens, -⟩ := opens_of_along hspell ht hm
  have hcloses : m.token.closes = true := by
    rw [hclose.2.1]
    rfl
  have hcomma : eatMark .comma m = (some false, m) := run_eatMark_not (by rw [hclose.2.1]; rfl)
  have hitems : parenthesized g s c' = (some ⟨[e], false⟩, d) := by
    rw [parenthesized, run_bind (run_eatMark_of_opens hopens rfl), if_neg Bool.false_ne_true]
    refine run_loop_of_inr (by omega) ?_
    simp only [run_bind (run_eatMark_of_opens hopens (k := .ellipsis) rfl), Bool.false_eq_true,
      if_false, run_bind (hg.argument hs.bracketed hspell ht hm hcloses hn (by omega)),
      run_bind hcomma, run_bind (run_expectMark hclose), run_pure, List.reverse_singleton]
  have harrow : atArrow d = (some false, d) := by
    rw [atArrow, look, hd]
    rfl
  simp only [parenthesis, run_bind (run_expectMark hopen), run_bind hitems, run_bind harrow,
    Bool.and_false, Bool.false_eq_true, if_false, run_bind (run_require (b := !false) rfl d),
    run_pure]

theorem run_functionExpression (hg : Sound g n) {params body : List Tree} {ds : List String}
    {i j : List Item} (hi : spell? (node .parameters params) = some i)
    (hj : spell? (node (.body ds) body) = some j)
    (h : Along (.word "function" :: .mark .parenOpen ::
      (i ++ .mark .parenClose :: .mark .braceOpen :: (j ++ [.mark .braceClose]))) c d)
    (hn : i.length + j.length + 2 < n) (hb : i.length + j.length + 2 < c.budget) :
    functionExpression g false c =
      (some (node (.function false false false) [missing, node .parameters params,
        node (.body ds) body]), d) := by
  obtain ⟨m, hword, h⟩ := h
  have hbudget := hword.shares.1
  have htail : functionTail g false false missing m = _ :=
    run_functionTail hg hi hj h hn (by omega)
  obtain ⟨e, hopen, -⟩ := h
  have hmul : (Token.mark .parenOpen == .operator .mul) = false := rfl
  simp only [functionExpression, run_bind (run_expectWord hword), run_token_bind, hopen.2.1, hmul,
    Bool.false_eq_true, if_false, run_pure_bind, htail]

theorem run_chainStart_identifier (hs : s.IsPlain) {w : String} (hw : isPlainName w = true)
    (h : (Item.word w).Passes c d) :
    chainStart g s mayBeArrow c = (some (leaf (.identifier w)), d) := by
  have hword := h.2.1
  have hne : ∀ k, isPlainName k = false → (w == k) = false := fun k hk => by
    simp [ne_of_isPlainName hw hk]
  have hchain : ∀ k ∈ chainWords, isPlainName k = false := by decide
  rw [chainStart_eq hword fun k hk => isWord_of_isPlainName hw (hchain k hk), primary,
    run_token_bind, hword]
  simp only [hne "this" (by decide), hne "null" (by decide),
    hne "true" (by decide), hne "false" (by decide),
    hne "function" (by decide), hne "class" (by decide),
    hne "async" (by decide), Bool.false_eq_true, if_false]
  exact run_map (run_variableName hs hw h)

theorem run_chainStart (hg : Sound g n) (hs : s.IsPlain) {t : Tree} {is : List Item}
    (hspell : spell? t = some is) (hchain : t.isChain = true) (hlink : t.isLink = false)
    (h : Along is c d) (hd : d.token.isMark .arrow = false) (hn : is.length ≤ n)
    (hb : is.length < c.budget) :
    chainStart g s mayBeArrow c = (some t, d) ∧ isArrow t = false := by
  cases spells_of_spell? hspell with
  | @identifier w hw =>
      rw [along_singleton] at h
      exact ⟨run_chainStart_identifier hs hw h, rfl⟩
  | thisRef | nullLiteral =>
      rw [along_singleton] at h
      rw [chainStart_eq h.2.1 (by decide), primary, run_token_bind, h.2.1]
      exact ⟨run_passAs h.2.2, rfl⟩
  | boolean v =>
      rw [along_singleton] at h
      cases v with
      | true | false =>
          rw [chainStart_eq h.2.1 (by decide), primary, run_token_bind, h.2.1]
          exact ⟨run_passAs h.2.2, rfl⟩
  | number v =>
      rw [along_singleton] at h
      rw [chainStart_eq h.2.1 fun _ _ => rfl, primary, run_token_bind, h.2.1]
      exact ⟨run_passAs h.2.2, rfl⟩
  | string v l =>
      obtain ⟨-, ⟨raw, hraw⟩, hm⟩ := along_singleton.mp h
      rw [chainStart_eq hraw fun _ _ => rfl, primary, run_token_bind, hraw]
      exact ⟨run_passAs hm, rfl⟩
  | regex p f =>
      obtain ⟨-, hdiv, rest, hrest, hm⟩ := along_singleton.mp h
      rw [chainStart_eq hdiv fun _ _ => rfl, primary, run_token_bind, hdiv]
      simp only [regularExpression, run_get_bind, hrest]
      exact ⟨run_bind (run_resume hm), rfl⟩
  | array hs' ht =>
      obtain ⟨m, hopen, h⟩ := h
      have := hopen.shares.1
      simp only [List.length_cons, List.length_append, List.length_nil] at hn hb
      rw [chainStart_eq hopen.2.1 fun _ _ => rfl, primary, run_token_bind, hopen.2.1]
      refine ⟨?_, rfl⟩
      simp only [run_bind (run_advance_token hopen),
        run_bind (run_arrayItems hg hs hs' ht h (by omega) (by omega)), run_pure]
  | object hs' ht =>
      obtain ⟨m, hopen, h⟩ := h
      have := hopen.shares.1
      simp only [List.length_cons, List.length_append, List.length_nil] at hn hb
      rw [chainStart_eq hopen.2.1 fun _ _ => rfl, primary, run_token_bind, hopen.2.1]
      refine ⟨?_, rfl⟩
      simp only [run_bind (run_advance_token hopen),
        run_bind (run_properties hg hs hs' ht h (by omega) (by omega)), run_pure]
  | parens he ht =>
      have hrun : parenthesis g s mayBeArrow c = _ :=
        run_parenthesis hg hs he ht h hd (by simp at hn; omega) (by simp at hb; omega)
      obtain ⟨m, hopen, -⟩ := h
      rw [chainStart_eq hopen.2.1 fun _ _ => rfl, primary, run_token_bind, hopen.2.1]
      exact ⟨hrun, rfl⟩
  | @function name params body ds k i j hname hp hbody _ =>
      have hmissing : name.isMissing = true := by
        simpa [isChain, bond?] using hchain
      obtain ⟨rfl, rfl⟩ : name = missing ∧ k = [] := by
        cases spells_of_spell? hname with
        | absent => exact ⟨rfl, rfl⟩
        | _ => cases hmissing
      simp only [List.nil_append, List.length_cons, List.length_append, List.length_nil] at hn hb
      have hrun := run_functionExpression hg hp hbody h (by omega) (by omega)
      obtain ⟨m, hword, -⟩ := h
      rw [chainStart_eq hword.2.1 (by decide), primary, run_token_bind, hword.2.1]
      exact ⟨hrun, rfl⟩
  | member | index | call => cases hlink
  | _ => cases hchain

theorem run_anyName {w : String} (h : (Item.word w).Passes c d) : anyName c = (some w, d) := by
  rw [anyName, run_token_bind, h.2.1]
  exact run_bind (run_advance_token h)

/-- What one step of a chain does. -/
structure IsChainStep (g : Grammar) (s : Scope)
    (step : Tree × Bool → Parser ((Tree × Bool) ⊕ Tree)) : Prop where
  loop_eq (e : Tree) : chainFrom g s false e = loop (e, false) step
  member {e : Tree} {w : String} {c d : Cursor} (h : Along [.mark .dot, .word w] c d) :
    step (e, false) c = (some (.inl (node (.member false w) [e], false)), d)
  index {e k : Tree} {c m m' d : Cursor} (hopen : (Item.mark .bracketOpen).Passes c m)
    (hkey : nestedExpression g s m = (some k, m'))
    (hclose : (Item.mark .bracketClose).Passes m' d) :
    step (e, false) c = (some (.inl (node (.index false) [e, k], false)), d)
  call {e : Tree} {ts : List Tree} {c m d : Cursor} (hopen : (Item.mark .parenOpen).Passes c m)
    (hargs : arguments g s m = (some ts, d)) :
    step (e, false) c = (some (.inl (node (.call false false) (e :: ts), false)), d)
  stop {e : Tree} {c : Cursor} (h : c.token.stops [] = true ∨ ∃ op, c.token = .update op) :
    step (e, false) c = (some (.inr e), c)

theorem exists_isChainStep (g : Grammar) (hs : s.IsPlain) : ∃ step, IsChainStep g s step := by
  refine ⟨_, fun e => rfl, ?_, ?_, ?_, ?_⟩
  · rintro e w c d ⟨m, hdot, d', hname, rfl⟩
    simp only [run_token_bind, hdot.2.1, run_bind (run_advance_token hdot), hname.2.1,
      run_bind (run_anyName hname), run_pure]
  · intro e k c m m' d hopen hkey hclose
    simp only [run_token_bind, hopen.2.1, hs.inDecorator, Bool.false_eq_true, if_false,
      run_bind (run_advance_token hopen), run_bind hkey, run_bind (run_expectMark hclose), run_pure]
  · intro e ts c m d hopen hargs
    simp only [run_token_bind, hopen.2.1, Bool.false_eq_true, if_false,
      run_bind (run_advance_token hopen), run_bind hargs, run_pure]
  · intro e c h
    simp only [run_token_bind, hs.inDecorator, Bool.false_eq_true, if_false]
    generalize c.token = t at h
    split
    case h_6 => rfl
    all_goals simp [Token.stops] at h

theorem exists_links (hg : Sound g n) (hs : s.IsPlain)
    {step : Tree × Bool → Parser ((Tree × Bool) ⊕ Tree)} (hstep : IsChainStep g s step)
    {t : Tree} {is : List Item} (hspell : spell? t = some is) (hchain : t.isChain = true)
    (h : Along is c d) (hd : d.token.isMark .arrow = false) (hn : is.length ≤ n)
    (hb : is.length < c.budget) :
    ∃ x e k, chainStart g s mayBeArrow c = (some x, e) ∧ isArrow x = false ∧
      e.budget = c.budget ∧ k ≤ is.length ∧
      ∀ N, iterate step (N + k) (x, false) e = iterate step N (t, false) d := by
  induction hlen : is.length using Nat.strongRecOn generalizing t is d with
  | _ l ih =>
  subst hlen
  -- a link after a shorter chain
  have hlink : ∀ {u : Tree} {i js : List Item}, spell? u = some i → u.isChain = true →
      is = i ++ js → (∀ {m}, Along js m d → m.token.isMark .arrow = false ∧
        (m.budget = c.budget → step (u, false) m = (some (.inl (t, false)), d))) →
      js.length ≠ 0 → ∃ x e k, chainStart g s mayBeArrow c = (some x, e) ∧ isArrow x = false ∧
        e.budget = c.budget ∧ k ≤ is.length ∧
        ∀ N, iterate step (N + k) (x, false) e = iterate step N (t, false) d := by
    rintro u i js hi hu rfl hread hjs
    obtain ⟨m, hm, h⟩ := along_append.mp h
    rw [List.length_append] at hn hb ⊢
    obtain ⟨harrow, hread⟩ := hread h
    obtain ⟨x, e, k, hstart, hx, he, hk, hloop⟩ :=
      ih i.length (by rw [List.length_append]; omega) hi hu hm harrow (by omega) (by omega) rfl
    refine ⟨x, e, k + 1, hstart, hx, he, by omega, fun N => ?_⟩
    rw [← Nat.add_assoc, Nat.add_right_comm, hloop (N + 1), run_iterate_inl (hread hm.budget_eq)]
  cases hl : t.isLink with
  | false =>
      obtain ⟨hstart, ht⟩ := run_chainStart hg hs hspell hchain hl h hd hn hb
      exact ⟨t, d, 0, hstart, ht, h.budget_eq, Nat.zero_le _, fun N => rfl⟩
  | true =>
      cases spells_of_spell? hspell with
      | member he hu =>
          refine hlink he hu rfl (fun hm => ⟨?_, fun _ => hstep.member hm⟩) (by simp)
          obtain ⟨m, hdot, -⟩ := hm
          rw [hdot.2.1]
          rfl
      | @index e k i j he hk hu hv =>
          refine hlink he hu rfl (fun {m} hm => ?_) (by simp)
          obtain ⟨m', hopen, hm⟩ := hm
          obtain ⟨m'', hkey, hclose⟩ := along_append.mp hm
          rw [along_singleton] at hclose
          refine ⟨by rw [hopen.2.1]; rfl, fun hb' => ?_⟩
          have := hopen.shares.1
          simp only [List.length_append, List.length_cons, List.length_nil] at hn hb
          exact hstep.index hopen (run_nested hg hs hk hv hkey (by rw [hclose.2.1]; rfl)
            (by rw [hclose.2.1]; rfl) (by omega) (by omega)) hclose
      | @call e args i js he hargs hu hv =>
          refine hlink he hu rfl (fun {m} hm => ?_) (by simp)
          obtain ⟨m', hopen, hm⟩ := hm
          refine ⟨by rw [hopen.2.1]; rfl, fun hb' => ?_⟩
          have := hopen.shares.1
          simp only [List.length_append, List.length_cons, List.length_nil] at hn hb
          exact hstep.call hopen (run_arguments hg hs hargs hv hm (by omega) (by omega))
      | _ => cases hl

theorem not_arrow_of_stops {groups : List (List BinaryOp)} {t : Token} (h : t.stops groups = true) :
    t.isMark .arrow = false := by
  cases t with
  | mark k => cases k <;> simp_all [Token.stops, Token.isMark]
  | _ => rfl

theorem run_leftHandSide (hg : Sound g n) (hs : s.IsPlain) {t : Tree} {is : List Item}
    (hspell : spell? t = some is) (hchain : t.isChain = true) (h : Along is c d)
    (hd : d.token.stops [] = true ∨ ∃ op, d.token = .update op) (hn : is.length ≤ n)
    (hb : is.length < c.budget) : leftHandSide g s mayBeArrow c = (some t, d) := by
  obtain ⟨step, hstep⟩ := exists_isChainStep g hs
  have harrow : d.token.isMark .arrow = false := by
    rcases hd with hd | ⟨op, hd⟩
    · exact not_arrow_of_stops hd
    · rw [hd]
      rfl
  obtain ⟨x, e, k, hstart, hx, he, hk, hloop⟩ : ∃ x e k,
      chainStart g s mayBeArrow c = (some x, e) ∧ _ :=
    exists_links hg hs hstep hspell hchain h harrow hn hb
  obtain ⟨N, hN⟩ : ∃ N, e.budget = N + 1 + k := ⟨e.budget - k - 1, by omega⟩
  rw [leftHandSide, run_bind hstart, hx, if_neg Bool.false_ne_true, hstep.loop_eq, run_loop, hN,
    hloop, run_iterate_inr (hstep.stop hd)]

theorem unaryOp?_token (op : UnaryOp) : unaryOp? op.token = some op := by
  cases op <;> rfl

theorem unaryOp?_eq_none {t : Token} (h : t.opensChain = true) : unaryOp? t = none := by
  cases t with
  | name w e =>
      simp only [Token.opensChain, Bool.and_eq_true, Bool.not_eq_true', List.contains_cons,
        Bool.or_eq_false_iff, beq_eq_false_iff_ne] at h
      unfold unaryOp?
      split <;> simp_all
  | operator op => cases op <;> simp_all [Token.opensChain, unaryOp?]
  | _ => first | rfl | cases h

/-- What begins with a chain is the chain, unless it is changed by one behind it. -/
theorem run_unary_of_leftHandSide (hs : s.IsPlain) (hc : c.token.opensChain = true) {e : Tree}
    (hleft : leftHandSide g s mayBeArrow c = (some e, m)) :
    ((∀ op, m.token ≠ .update op) → unary g s mayBeArrow c = (some e, m)) ∧
      ∀ {op}, Along [.glue, .token (.update op)] m d → isArrow e = false → isPlace e = true →
        unary g s mayBeArrow c = (some (node (.update op false) [e]), d) := by
  have hupdate : ∀ op, c.token ≠ .update op := by
    intro op he
    rw [he] at hc
    cases hc
  rw [unary, run_token_bind, unaryOp?_eq_none hc]
  generalize c.token = t at hupdate
  dsimp only
  split
  · exact absurd rfl (hupdate _)
  rw [hs.inAsync, Bool.false_and, if_neg Bool.false_ne_true, run_bind hleft, run_token_bind]
  constructor
  · intro hm
    generalize m.token = k at hm
    split
    · exact absurd rfl (hm _)
    · rfl
  · rintro op ⟨_, ⟨hfresh, rfl⟩, hm⟩ harrow hplace
    rw [along_singleton] at hm
    simp only [hm.2.1, isFresh, run_look_bind, hfresh, harrow, Bool.or_false, Bool.false_eq_true,
      if_false, run_bind (run_require hplace m), run_bind (run_advance_token hm), run_pure]

theorem isArrow_of_isExpression {t : Tree} (h : t.isExpression = true) : isArrow t = false := by
  cases t with
  | node f ps => cases f <;> first | rfl | cases h

theorem run_annotatedOperand {p : Parser Tree} {e : Tree} (hquiet : c.IsQuiet)
    (h : p c = (some e, d)) : annotatedOperand p c = (some e, d) := by
  rw [annotatedOperand, run_look_bind, hquiet.1, run_bind h]
  rfl

theorem bond?_of_isOperand_nil {t : Tree} (ht : t.isOperand [] = true)
    (hchain : t.isChain = false) :
    t.bond? = some .prefixed := by
  unfold isOperand at ht
  unfold isChain at hchain
  split at ht <;> simp_all

/-- An operand is read with the operators around it. -/
theorem run_unary (hg : Sound g n) (hs : s.IsPlain) {t : Tree} {is : List Item}
    (hspell : spell? t = some is) (ht : t.isOperand [] = true) (h : Along is c d)
    (hd : d.token.stops [] = true) (hn : is.length ≤ n) (hb : is.length < c.budget) :
    unary g s mayBeArrow c = (some t, d) := by
  have hopens := opens_of_along hspell (isExpression_of_isOperand ht) h
  cases hchain : t.isChain with
  | true =>
    have hleft : leftHandSide g s mayBeArrow c = _ :=
      run_leftHandSide hg hs hspell hchain h (.inl hd) hn hb
    refine (run_unary_of_leftHandSide (d := d) hs (hopens.2.2 hchain) hleft).1 ?_
    intro op he
    rw [he] at hd
    cases hd
  | false =>
  have hprefixed := bond?_of_isOperand_nil ht hchain
  cases spells_of_spell? hspell with
  | @unary op e i he hu =>
      obtain ⟨m, hop, h⟩ := h
      have := hop.shares.1
      rw [List.length_cons] at hn hb
      have hquiet := (opens_of_along he (isExpression_of_isOperand hu) h).1
      have hrun := run_annotatedOperand hquiet (hg.operand hs he hu h hd (by omega) (by omega))
      simp only [unary, run_token_bind, hop.2.1, unaryOp?_token, run_bind (run_advance_token hop),
        run_bind hrun, run_pure]
  | @updated op e i he hu hp =>
      obtain ⟨m, hop, h⟩ := h
      have := hop.shares.1
      rw [List.length_cons] at hn hb
      have hrun := hg.operand hs he hu h hd (by omega) (by omega)
      have hnone : unaryOp? (.update op) = none := rfl
      simp only [unary, run_token_bind, hop.2.1, hnone, run_bind (run_advance_token hop),
        run_bind hrun, run_bind (run_require hp d), run_pure]
  | @updating op e i he hu hp =>
      obtain ⟨m, hm, h⟩ := along_append.mp h
      obtain ⟨_, ⟨hfresh, rfl⟩, hop⟩ := h
      rw [along_singleton] at hop
      rw [List.length_append] at hn hb
      have hleft : leftHandSide g s mayBeArrow c = _ :=
        run_leftHandSide hg hs he hu hm (.inr ⟨op, hop.2.1⟩) (by omega) (by omega)
      have hopens := opens_of_along he (isExpression_of_isChain hu) hm
      exact (run_unary_of_leftHandSide hs (hopens.2.2 hu) hleft).2
        ⟨m, ⟨hfresh, rfl⟩, along_singleton.mpr hop⟩
        (isArrow_of_isExpression (isExpression_of_isChain hu)) hp
  | _ => simp [bond?] at hprefixed

theorem run_power (hg : Sound g n) (hs : s.IsPlain) {t : Tree} {is : List Item}
    (hspell : spell? t = some is) (ht : t.isOperand [] = true) (h : Along is c d)
    (hd : d.token.stops [] = true) (hn : is.length ≤ n) (hb : is.length < c.budget) :
    power g s mayBeArrow c = (some t, d) := by
  have hexpression := isExpression_of_isOperand ht
  obtain ⟨hquiet, hopens, -⟩ := opens_of_along hspell hexpression h
  have hoperand : unary g s mayBeArrow c = _ := run_unary hg hs hspell ht h hd hn hb
  have hunary := run_annotatedOperand hquiet hoperand
  have hpow : (d.token == .operator .pow) = false := by
    rw [beq_eq_false_iff_ne]
    intro he
    rw [he] at hd
    cases hd
  rw [power, run_token_bind]
  generalize c.token = k at hopens
  split
  · cases hopens
  · simp only [run_bind hunary, isArrow_of_isExpression hexpression, Bool.not_false, run_token_bind,
      hpow, Bool.and_false, Bool.false_eq_true, if_false, run_pure]

/-- What one step between operands of one group does. -/
structure IsBinaryStep (g : Grammar) (s : Scope) (ops : List BinaryOp)
    (tighter : List (List BinaryOp)) (step : Tree → Parser (Tree ⊕ Tree)) : Prop where
  binaryOver_eq (mayBeArrow : Bool) : binaryOver g s mayBeArrow (ops :: tighter) = do
    let first ← binaryOver g s mayBeArrow tighter
    if isArrow first then pure first else loop first step
  more {op : BinaryOp} {l r : Tree} {c m d : Cursor} (hop : (Item.token (.operator op)).Passes c m)
    (hops : ops.contains op = true) (hplain : op.isPlain = true)
    (hr : binaryOver g s false tighter m = (some r, d)) :
    step l c = (some (.inl (node (.binary op) [l, r])), d)
  stop {l : Tree} {c : Cursor} (h : c.token.stops (ops :: tighter) = true) :
    step l c = (some (.inr l), c)

theorem exists_isBinaryStep (g : Grammar) (s : Scope) (ops : List BinaryOp)
    (tighter : List (List BinaryOp)) : ∃ step, IsBinaryStep g s ops tighter step := by
  refine ⟨_, fun mayBeArrow => rfl, ?_, ?_⟩
  · intro op l r c m d hop hops hplain hr
    have hcoalesce : (op != .coalesce) = true := by
      rw [bne_iff_ne]
      rintro rfl
      cases hplain
    have hrequire : (op != .coalesce || !(isMixed l || isMixed r)) = true := by
      rw [hcoalesce, Bool.true_or]
    simp only [run_token_bind, hop.2.1, binaryOp?, hops, if_true, run_bind (run_advance_token hop),
      run_bind hr, run_bind (run_require hrequire d), run_pure]
  · intro l c h
    rw [run_token_bind]
    generalize c.token = t at h
    cases t with
    | operator op =>
        have hops : ops.contains op = false := by
          simp only [Token.stops, List.any_cons, Bool.and_eq_true, Bool.not_eq_true',
            Bool.or_eq_false_iff] at h
          exact h.2.1
        simp only [binaryOp?, hops, Bool.false_eq_true, if_false, run_pure]
    | mark k => rfl
    | assign op => rfl
    | _ => cases h

/-- The groups from that of an operator on are those that begin with its group, of which no other
has it. -/
theorem groupsFrom_eq {ops : List BinaryOp} {tighter : List (List BinaryOp)}
    (hgroups : ops :: tighter <:+ operatorGroups) {op : BinaryOp} (hop : ops.contains op = true) :
    groupsFrom op = ops :: tighter ∧ (Token.operator op).stops tighter = true := by
  have hall : ∀ groups ∈ operatorGroups.tails, ∀ op, (groups.headD []).contains op = true →
      groupsFrom op = groups ∧ (Token.operator op).stops groups.tail = true := by
    intro groups hgroups op
    revert groups
    cases op <;> decide
  exact hall _ ((List.mem_tails _ _).mpr hgroups) op hop

theorem isOperand_cons {ops : List BinaryOp} {tighter : List (List BinaryOp)} {t : Tree}
    (h : t.isOperand (ops :: tighter) = true) :
    t.isOperand tighter = true ∨ ∃ op, t.bond? = some (.binary op) ∧ ops.contains op = true := by
  unfold isOperand at h ⊢
  split at h
  · exact .inl rfl
  · exact .inl rfl
  · rename_i op hop
    rw [List.any_cons, Bool.or_eq_true] at h
    exact h.symm.imp id fun h => ⟨op, hop, h⟩
  · cases h

theorem stops_of_cons {ops : List BinaryOp} {tighter : List (List BinaryOp)} {t : Token}
    (h : t.stops (ops :: tighter) = true) : t.stops tighter = true := by
  cases t with
  | operator op =>
      simp only [Token.stops, List.any_cons, Bool.and_eq_true, Bool.not_eq_true',
        Bool.or_eq_false_iff] at h ⊢
      exact ⟨h.1, h.2.2⟩
  | _ => exact h

/-- Operands are read with the operators between them, which group to the left. -/
theorem run_binaryOver (hg : Sound g n) (hs : s.IsPlain) {groups : List (List BinaryOp)}
    (hgroups : groups <:+ operatorGroups) {mayBeArrow : Bool} {t : Tree} {is : List Item}
    {c d : Cursor} (hspell : spell? t = some is) (ht : t.isOperand groups = true)
    (h : Along is c d) (hd : d.token.stops groups = true) (hn : is.length ≤ n)
    (hb : is.length < c.budget) : binaryOver g s mayBeArrow groups c = (some t, d) := by
  induction groups generalizing mayBeArrow t is c d with
  | nil => exact run_power hg hs hspell ht h hd hn hb
  | cons ops tighter ih =>
      replace ih := @ih ((List.suffix_cons ops tighter).trans hgroups)
      obtain ⟨step, hstep⟩ := exists_isBinaryStep g s ops tighter
      -- the first operand, and as many steps as there are operators of the group
      have hspine : ∀ {t is d}, spell? t = some is → t.isOperand (ops :: tighter) = true →
          Along is c d → d.token.stops tighter = true → is.length ≤ n → is.length < c.budget →
          ∃ x e k, binaryOver g s mayBeArrow tighter c = (some x, e) ∧ isArrow x = false ∧
            e.budget = c.budget ∧ k ≤ is.length ∧
            ∀ N, iterate step (N + k) x e = iterate step N t d := by
        intro t is d hspell ht h hd hn hb
        induction hlen : is.length using Nat.strongRecOn generalizing t is d with
        | _ l ihl =>
        subst hlen
        rcases isOperand_cons ht with ht | ⟨op, hbond, hop⟩
        · exact ⟨t, d, 0, ih hspell ht h hd hn hb,
            isArrow_of_isExpression (isExpression_of_isOperand ht),
            h.budget_eq, Nat.zero_le _, fun N => rfl⟩
        cases spells_of_spell? hspell with
        | @binary op' l r i j hl hr hplain htl htr =>
            obtain rfl : op' = op := by
              simpa [bond?] using hbond
            obtain ⟨hfrom, hstops⟩ := groupsFrom_eq hgroups hop
            rw [hfrom] at htl htr
            obtain ⟨m, hm, m', hoperator, hr'⟩ := along_append.mp h
            have := hm.budget_eq
            have := hoperator.shares.1
            rw [List.length_append, List.length_cons] at hn hb ⊢
            obtain ⟨x, e, k, hfirst, hx, he, hk, hloop⟩ := ihl i.length
              (by rw [List.length_append, List.length_cons]; omega) hl htl hm
              (by rw [hoperator.2.1, hstops]) (by omega) (by omega) rfl
            have hright : binaryOver g s false tighter m' = _ :=
              ih hr htr hr' hd (by omega) (by omega)
            refine ⟨x, e, k + 1, hfirst, hx, he, by omega, fun N => ?_⟩
            rw [← Nat.add_assoc, Nat.add_right_comm, hloop (N + 1),
              run_iterate_inl (hstep.more hoperator hop hplain hright)]
        | _ => simp [bond?] at hbond
      obtain ⟨x, e, k, hfirst, hx, he, hk, hloop⟩ := hspine hspell ht h (stops_of_cons hd) hn hb
      obtain ⟨N, hN⟩ : ∃ N, e.budget = N + 1 + k := ⟨e.budget - k - 1, by omega⟩
      rw [hstep.binaryOver_eq, run_bind hfirst, hx, if_neg Bool.false_ne_true, run_loop, hN, hloop,
        run_iterate_inr (hstep.stop hd)]

theorem stops_of_closes {groups : List (List BinaryOp)} {t : Token} (h : t.closes = true) :
    t.stops groups = true := by
  cases t with
  | mark k => cases k <;> simp_all [Token.closes, Token.stops]
  | _ => cases h

/-- Of an expression that is no assignment there is an operand. -/
theorem isOperand_operatorGroups {t : Tree} {is : List Item} (hspell : spell? t = some is)
    (ht : t.isExpression = true) (hassigned : t.bond? ≠ some .assigned) :
    t.isOperand operatorGroups = true := by
  cases hbond : t.bond? with
  | none =>
      rw [isExpression, hbond] at ht
      cases ht
  | some bond =>
      cases bond with
      | chain | prefixed => rw [isOperand, hbond]
      | assigned => exact absurd hbond hassigned
      | binary op =>
          rw [isOperand, hbond]
          cases spells_of_spell? hspell with
          | @binary op' l r i j hl hr hplain _ _ =>
              obtain rfl : op' = op := by
                simpa [bond?] using hbond
              cases op' <;> first | decide | cases hplain
          | _ => simp [bond?] at hbond

theorem run_conditional (hg : Sound g n) (hs : s.IsPlain) {t : Tree} {is : List Item}
    (hspell : spell? t = some is) (ht : t.isOperand operatorGroups = true) (h : Along is c d)
    (hd : d.token.stops operatorGroups = true) (hquestion : d.token.isMark .question = false)
    (hn : is.length ≤ n) (hb : is.length < c.budget) : conditional g s c = (some t, d) := by
  have hrun : binaryOver g s true operatorGroups c = _ :=
    run_binaryOver hg hs (List.suffix_refl _) hspell ht h hd hn hb
  have htest : (pure (!isArrow t) <&&> eatMark .question) d = (some false, d) := by
    cases isArrow t
    · exact run_eatMark_not hquestion
    · rfl
  simp only [conditional, run_bind hrun, run_bind htest, Bool.false_eq_true, if_false, run_pure]

theorem run_asPattern {t : Tree} {is : List Item} (hspell : spell? t = some is)
    (ht : t.isTarget = true) (c : Cursor) : asPattern true t c = (some t, c) := by
  simp only [isTarget, Bool.and_eq_true] at ht
  cases spells_of_spell? hspell with
  | identifier | member | index => rfl
  | parens => simp [form] at ht
  | _ => simp [isPlace] at ht

theorem run_assignment (hg : Sound g n) (hs : s.IsPlain) {t : Tree} {is : List Item}
    (hspell : spell? t = some is) (ht : t.isExpression = true) (h : Along is c d)
    (hd : d.token.closes = true) (hn : is.length ≤ n) (hb : is.length < c.budget) :
    assignment g s c = (some t, d) := by
  obtain ⟨⟨-, heffect⟩, -, -⟩ := opens_of_along hspell ht h
  have hyield : atWord "yield" c = (some (c.token.isWord "yield"), c) := rfl
  simp only [assignment, run_look_bind, heffect, hs.inGenerator, Bool.false_and, Bool.false_eq_true,
    if_false, run_bind hyield]
  by_cases hassigned : t.bond? = some .assigned
  · cases spells_of_spell? hspell with
    | @assign op l r i j hl hr htl htr =>
        obtain ⟨m, hm, m', hassign, h⟩ := along_append.mp h
        have := hm.budget_eq
        have := hassign.shares.1
        rw [List.length_append, List.length_cons] at hn hb
        have hchain := isChain_of_isTarget htl
        have hexpression := isExpression_of_isChain hchain
        have hbond : l.bond? ≠ some .assigned := by
          rw [isChain, beq_iff_eq] at hchain
          rw [hchain]
          rintro ⟨⟩
        have hleft := run_conditional hg hs hl (isOperand_operatorGroups hl hexpression hbond) hm
          (by rw [hassign.2.1]; rfl) (by rw [hassign.2.1]; rfl) (by omega) (by omega)
        have hright := hg.argument hs hr htr h hd (by omega) (by omega)
        simp only [run_bind hleft, isArrow_of_isExpression hexpression, Bool.false_eq_true, if_false,
          run_token_bind, hassign.2.1, run_bind (run_asPattern hl htl m),
          run_bind (run_advance_token hassign), run_bind hright, run_pure]
    | _ => simp [bond?] at hassigned
  · have hquestion : d.token.isMark .question = false := by
      generalize d.token = k at hd
      cases k with
      | mark k => cases k <;> first | rfl | cases hd
      | _ => cases hd
    have hrun := run_conditional hg hs hspell (isOperand_operatorGroups hspell ht hassigned) h
      (stops_of_closes hd) hquestion hn hb
    simp only [run_bind hrun, isArrow_of_isExpression ht, Bool.false_eq_true, if_false,
      run_token_bind]
    generalize d.token = k at hd
    split
    · cases hd
    · cases hd
    · rfl

end DefineBundle.Script
