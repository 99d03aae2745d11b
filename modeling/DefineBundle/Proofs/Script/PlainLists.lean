import DefineBundle.Proofs.Script.Spelling

/-!
# Reading the parts of a plain script

What it takes of a reader of nested goals to read a plain script, and how lists of parts are read
then: between commas up to a closing mark, or statement by statement.
-/
namespace DefineBundle.Script

open DefineBundle.Script.Tree DefineBundle.Script.Parser

/-- Neither asynchronous functions nor generators nor decorators are around. -/
structure Scope.IsPlain (s : Scope) : Prop where
  inAsync : s.inAsync = false
  inGenerator : s.inGenerator = false
  inDecorator : s.inDecorator = false

theorem Scope.IsPlain.bracketed {s : Scope} (h : s.IsPlain) : s.bracketed.IsPlain :=
  ⟨h.inAsync, h.inGenerator, rfl⟩

theorem Scope.IsPlain.loopHead {s : Scope} (h : s.IsPlain) : s.loopHead.IsPlain :=
  ⟨h.inAsync, h.inGenerator, h.inDecorator⟩

theorem Scope.isPlain_function : (Scope.function false false).IsPlain :=
  ⟨rfl, rfl, rfl⟩

theorem Scope.IsPlain.admits {s : Scope} (h : s.IsPlain) {n : String} (hn : isPlainName n = true) :
    s.admits n = true := by
  have hreserved : n ∉ reservedWords := by
    intro hmem
    simp [isPlainName, hmem] at hn
  simp [Scope.admits, h.inAsync, h.inGenerator, hreserved]

/-- Whether an expression is over before the token. -/
def Token.closes : Token → Bool
  | .mark m => [.parenClose, .bracketClose, .braceClose, .comma, .semicolon, .colon].contains m
  | _ => false

/-- Whether an operand next to operators of looser groups is over before the token. -/
def Token.stops (groups : List (List BinaryOp)) : Token → Bool
  | .mark m => !([.dot, .bracketOpen, .backquote, .optionalDot, .parenOpen, .arrow].contains m)
  | .operator op => op != .pow && !groups.any (·.contains op)
  | .assign _ => true
  | _ => false

/-- What a reader of nested goals has to read: plain parts of less than `n` items. -/
structure Sound (g : Grammar) (n : Nat) : Prop where
  argument {s : Scope} {t : Tree} {is : List Item} {c d : Cursor} (hs : s.IsPlain)
    (hi : spell? t = some is) (ht : t.isExpression = true) (h : Along is c d)
    (hd : d.token.closes = true) (hn : is.length < n) (hb : is.length < c.budget) :
    g (.assignment s) c = (some t, d)
  operand {s : Scope} {t : Tree} {is : List Item} {c d : Cursor} (hs : s.IsPlain)
    (hi : spell? t = some is) (ht : t.isOperand [] = true) (h : Along is c d)
    (hd : d.token.stops [] = true) (hn : is.length < n) (hb : is.length < c.budget) :
    g (.unary s) c = (some t, d)
  name {s : Scope} {w : String} {c d : Cursor} (hs : s.IsPlain) (hw : isPlainName w = true)
    (h : (Item.word w).Passes c d) (hn : 1 < n) :
    g (.binding s) c = (some (leaf (.identifier w)), d)
  statement {s : Scope} {isListed : Bool} {t : Tree} {is : List Item} {c d : Cursor}
    (hs : s.IsPlain) (hi : spell? t = some is) (ht : t.isStatement = true) (h : Along is c d)
    (hd : d.token.isWord "else" = false) (hn : is.length < n) (hb : is.length < c.budget) :
    g (.statement s isListed) c = (some t, d)
  directive {s : Scope} {raw : String} {c d : Cursor} (hs : s.IsPlain)
    (h : Along [.token (.string raw false raw), .mark .semicolon] c d) (hn : 2 < n)
    (hb : 2 < c.budget) :
    g (.statement s true) c = (some (node .expression [leaf (.string raw false)]), d)

variable {g : Grammar} {s : Scope} {c d m : Cursor} {n b : Nat}

/-- Before an expression nothing is said, and the token is one that may open it. -/
theorem opens_of_along {t : Tree} {is : List Item} (hi : spell? t = some is)
    (hkind : t.isExpression = true) (h : Along is c d) :
    c.IsQuiet ∧ c.token.opens = true ∧ (t.isChain = true → c.token.opensChain = true) := by
  obtain ⟨i, rest, rfl, ho, hchain⟩ := exists_opening hi hkind
  obtain ⟨m, hm, -⟩ := h
  cases i with
  | token t => exact ⟨hm.1, by rw [hm.2.1]; exact ho, by rw [hm.2.1]; exact hchain⟩
  | string v l =>
      obtain ⟨hquiet, ⟨raw, hraw⟩, -⟩ := hm
      exact ⟨hquiet, by rw [hraw]; rfl, fun _ => by rw [hraw]; rfl⟩
  | regex p f => exact ⟨hm.1, by rw [hm.2.1]; rfl, fun _ => by rw [hm.2.1]; rfl⟩
  | glue => cases ho

/-- Before a statement nothing is said, and the token is one that may begin it. -/
theorem begins_of_along {t : Tree} {is : List Item} (hi : spell? t = some is)
    (hkind : t.isStatement = true) (h : Along is c d) : c.IsQuiet ∧ c.token.begins = true := by
  obtain ⟨k, rest, rfl, hk⟩ := exists_beginning hi hkind
  obtain ⟨m, hm, -⟩ := h
  exact ⟨hm.1, by rw [hm.2.1, hk]⟩

theorem isMark_of_opens {t : Token} (h : t.opens = true) {k : Mark}
    (hk : (Token.mark k).opens = false) : t.isMark k = false := by
  cases t with
  | mark l =>
      simp only [Token.isMark, beq_eq_false_iff_ne]
      rintro rfl
      rw [hk] at h
      cases h
  | _ => rfl

/-- A loop that reads one or more items between commas; `Q` says where it goes from the last. -/
theorem run_separated {step : List Tree → Parser (List Tree ⊕ List Tree)}
    {P : Tree → List Item → Prop} {Q : Cursor → Cursor → Prop}
    (hlast : ∀ {acc t i c m d}, P t i → Along i c m → Q m d → c.budget = b →
      step acc c = (some (.inr (t :: acc).reverse), d))
    (hmore : ∀ {acc t i c m d}, P t i → Along i c m → (Item.mark .comma).Passes m d →
      c.budget = b → step acc c = (some (.inl (t :: acc)), d))
    {ts : List Tree} {is : List (List Item)} (hall : List.Forall₂ P ts is) (hne : ts ≠ [])
    (h : Along (commas is) c m) (hq : Q m d) (hb : c.budget = b) (hn : ts.length ≤ b) :
    loop [] step c = (some ts, d) := by
  have hloop : ∀ acc n, ts.length ≤ n → iterate step n acc c = (some (acc.reverse ++ ts), d) := by
    clear hn
    induction hall generalizing c with
    | nil => exact absurd rfl hne
    | @cons t i ts is ht hall ih =>
        rintro acc (_ | n) hn
        · cases hn
        cases hall with
        | nil => rw [run_iterate_inr (hlast ht h hq hb), List.reverse_cons]
        | @cons u j us js hu hall =>
            rw [commas, along_append] at h
            obtain ⟨e, hi, e', hm, he⟩ := h
            rw [run_iterate_inl (hmore ht hi hm hb), ih (List.cons_ne_nil u us) he
              (by rw [hm.shares.1, hi.budget_eq, hb]) _ _ (by simpa using hn)]
            simp
  rw [run_loop, hloop [] c.budget (hb ▸ hn)]
  rfl

theorem run_commas {step : List Tree → Parser (List Tree ⊕ List Tree)} {close : Mark}
    {P : Tree → List Item → Prop}
    (hend : ∀ {acc c d}, (Item.mark close).Passes c d → step acc c = (some (.inr acc.reverse), d))
    (hlast : ∀ {acc t i c m d}, P t i → Along i c m → (Item.mark close).Passes m d →
      c.budget = b → step acc c = (some (.inr (t :: acc).reverse), d))
    (hmore : ∀ {acc t i c m d}, P t i → Along i c m → (Item.mark .comma).Passes m d →
      c.budget = b → step acc c = (some (.inl (t :: acc)), d))
    {ts : List Tree} {is : List (List Item)} (hall : List.Forall₂ P ts is)
    (h : Along (commas is ++ [.mark close]) c d) (hb : c.budget = b) (hn : ts.length < b) :
    loop [] step c = (some ts, d) := by
  obtain ⟨m, hm, hclose⟩ := along_append.mp h
  rw [along_singleton] at hclose
  cases hall with
  | nil =>
      obtain rfl : c = m := hm
      exact run_loop_of_inr (by omega) (hend hclose)
  | cons ht hall =>
      exact run_separated hlast hmore (.cons ht hall) (List.cons_ne_nil _ _) hm hclose hb
        (Nat.le_of_lt hn)

theorem run_eatMark_not {k : Mark} (h : c.token.isMark k = false) :
    eatMark k c = (some false, c) :=
  run_eat_not h

theorem run_eatMark_of_opens {k : Mark} (h : c.token.opens = true)
    (hk : (Token.mark k).opens = false) : eatMark k c = (some false, c) :=
  run_eatMark_not (isMark_of_opens h hk)

theorem run_commaSeparated {close : Mark} (hclose : close ≠ .comma) {item : Parser Tree}
    {P : Tree → List Item → Prop}
    (hitem : ∀ {t i c d}, P t i → Along i c d →
      (d.token = .mark .comma ∨ d.token = .mark close) → c.budget = b →
        c.token.isMark close = false ∧ item c = (some t, d))
    {ts : List Tree} {is : List (List Item)} (hall : List.Forall₂ P ts is)
    (h : Along (commas is ++ [.mark close]) c d) (hb : c.budget = b) (hn : ts.length < b) :
    commaSeparated close item c = (some ts, d) := by
  refine run_commas ?_ ?_ ?_ hall h hb hn
  · intro acc c d hc
    rw [run_bind (run_eatMark hc)]
    rfl
  · intro acc t i c m d ht hi hm hb
    obtain ⟨hfirst, hrun⟩ := hitem ht hi (.inr hm.2.1) hb
    have hcomma : m.token.isMark .comma = false := by
      simp [hm.2.1, Token.isMark, hclose]
    rw [run_bind (run_eatMark_not hfirst), if_neg Bool.false_ne_true, run_bind hrun,
      run_bind (run_eatMark_not hcomma), if_neg Bool.false_ne_true, run_bind (run_expectMark hm)]
    rfl
  · intro acc t i c m d ht hi hm hb
    obtain ⟨hfirst, hrun⟩ := hitem ht hi (.inl hm.2.1) hb
    rw [run_bind (run_eatMark_not hfirst), if_neg Bool.false_ne_true, run_bind hrun,
      run_bind (run_eatMark hm), if_pos rfl]
    rfl

/-- Expressions that are spelled by less than `n` items. -/
def IsArgument (n : Nat) (t : Tree) (i : List Item) : Prop :=
  spell? t = some i ∧ t.isExpression = true ∧ i.length < n

theorem forall₂_isArgument {ts : List Tree} {is : List (List Item)} (hs : spellAll? ts = some is)
    (ht : ts.all isExpression = true) (hn : (commas is).length < n) :
    List.Forall₂ (IsArgument n) ts is :=
  (forall₂_of_spellAll? hs ht).imp fun _ _ ⟨hi, ht, hmem⟩ =>
    ⟨hi, ht, Nat.lt_of_le_of_lt (length_le_commas hmem) hn⟩

theorem closes_of_comma_or {k : Mark} (hk : (Token.mark k).closes = true)
    (h : d.token = .mark .comma ∨ d.token = .mark k) : d.token.closes = true := by
  rcases h with h | h
  · rw [h]
    rfl
  · rw [h, hk]

theorem run_arguments (hg : Sound g n) (hs : s.IsPlain) {ts : List Tree} {is : List (List Item)}
    (hspell : spellAll? ts = some is) (ht : ts.all isExpression = true)
    (h : Along (commas is ++ [.mark .parenClose]) c d) (hn : (commas is).length < n)
    (hb : (commas is).length + 1 < c.budget) : arguments g s c = (some ts, d) := by
  refine run_commaSeparated (P := IsArgument (min n c.budget)) (b := c.budget) (by decide) ?_
    (forall₂_isArgument hspell ht (by omega)) h rfl ?_
  · rintro t i c' d ⟨hi, ht, hlt⟩ hc hd hb
    obtain ⟨-, hopens, -⟩ := opens_of_along hi ht hc
    refine ⟨isMark_of_opens hopens rfl, ?_⟩
    rw [run_bind (run_eatMark_of_opens hopens rfl), if_neg Bool.false_ne_true]
    exact hg.argument hs.bracketed hi ht hc (closes_of_comma_or rfl hd) (by omega) (by omega)
  · have := (forall₂_of_spellAll? hspell ht).length_eq
    have := length_le_length_commas is
    omega

theorem run_arrayItems (hg : Sound g n) (hs : s.IsPlain) {ts : List Tree} {is : List (List Item)}
    (hspell : spellAll? ts = some is) (ht : ts.all isExpression = true)
    (h : Along (commas is ++ [.mark .bracketClose]) c d) (hn : (commas is).length < n)
    (hb : (commas is).length + 1 < c.budget) : arrayItems g s c = (some ts, d) := by
  have hitem : ∀ {t i c' m}, IsArgument (min n c.budget) t i → Along i c' m →
      m.token.closes = true → c'.budget = c.budget →
        (∀ k, (Token.mark k).opens = false → eatMark k c' = (some false, c')) ∧
          g (.assignment s.bracketed) c' = (some t, m) := by
    rintro t i c' m ⟨hi, ht, hlt⟩ hc hd hb
    exact ⟨fun k => run_eatMark_of_opens (opens_of_along hi ht hc).2.1,
      hg.argument hs.bracketed hi ht hc hd (by omega) (by omega)⟩
  refine run_commas (P := IsArgument (min n c.budget)) (b := c.budget) ?_ ?_ ?_
    (forall₂_isArgument hspell ht (by omega)) h rfl ?_
  · intro acc c d hc
    rw [run_bind (run_eatMark hc)]
    rfl
  · intro acc t i c' m d ht hi hm hb
    obtain ⟨hnot, hrun⟩ := hitem ht hi (by rw [hm.2.1]; rfl) hb
    have hcomma : m.token.isMark .comma = false := by
      rw [hm.2.1]
      rfl
    simp only [run_bind (hnot .bracketClose rfl), run_bind (hnot .comma rfl),
      run_bind (hnot .ellipsis rfl), Bool.false_eq_true, if_false, run_bind hrun,
      run_bind (run_eatMark_not hcomma), run_bind (run_expectMark hm), run_pure]
  · intro acc t i c' m d ht hi hm hb
    obtain ⟨hnot, hrun⟩ := hitem ht hi (by rw [hm.2.1]; rfl) hb
    simp only [run_bind (hnot .bracketClose rfl), run_bind (hnot .comma rfl),
      run_bind (hnot .ellipsis rfl), Bool.false_eq_true, if_false, run_bind hrun,
      run_bind (run_eatMark hm), if_true, run_pure]
  · have := (forall₂_of_spellAll? hspell ht).length_eq
    have := length_le_length_commas is
    omega

theorem run_methodStart {v raw : String} {l : Bool} (h : c.token = .string v l raw) :
    methodStart c = (some ⟨.plain, false, false⟩, c) := by
  simp [methodStart, following, run_look_bind, run_token_bind, h, Token.isWord, run_pure]

theorem run_objectProperty (hg : Sound g n) (hs : s.IsPlain) {t : Tree} {i : List Item}
    (hi : spell? t = some i) (ht : t.isProperty = true) (h : Along i c d)
    (hd : d.token.closes = true) (hn : i.length < n) (hb : i.length < c.budget) :
    c.token.isMark .braceClose = false ∧ objectProperty g s c = (some t, d) := by
  cases spells_of_spell? hi with
  | @property v l u i he hu =>
      obtain ⟨m, ⟨hquiet, ⟨raw, hraw⟩, hm⟩, e, hcolon, h⟩ := h
      have hnot : ∀ k, c.token.isMark k = false := by
        intro k
        rw [hraw]
        rfl
      have hkey : propertyKey g s c = (some (leaf (.string v l)), m) := by
        rw [propertyKey, run_token_bind, hraw]
        exact run_bind (run_advance hm)
      have hparen : atMark .parenOpen m = (some false, m) := by
        rw [atMark, look, hcolon.2.1]
        rfl
      have hbudget : e.budget = c.budget :=
        hcolon.shares.1.trans (shares_of_moved hm).1
      have hvalue := hg.argument hs.bracketed he hu h hd
        (by simp only [List.length_cons] at hn; omega)
        (by simp only [List.length_cons] at hb; omega)
      have hbare : (!(⟨.plain, false, false⟩ : MethodStart).isBare || false) = false := rfl
      refine ⟨hnot _, ?_⟩
      simp only [objectProperty, run_bind (run_eatMark_not (hnot .ellipsis)), Bool.false_eq_true,
        if_false, run_bind (run_methodStart hraw), run_token_bind, run_bind hkey,
        run_bind hparen, hbare, run_bind (run_eatMark hcolon), run_bind hvalue, if_true, run_pure]
  | _ => simp [isProperty] at ht

theorem run_properties (hg : Sound g n) (hs : s.IsPlain) {ts : List Tree}
    {is : List (List Item)} (hspell : spellAll? ts = some is) (ht : ts.all isProperty = true)
    (h : Along (commas is ++ [.mark .braceClose]) c d) (hn : (commas is).length < n)
    (hb : (commas is).length + 1 < c.budget) :
    commaSeparated .braceClose (objectProperty g s) c = (some ts, d) := by
  refine run_commaSeparated (b := c.budget) (by decide) ?_ (forall₂_of_spellAll? hspell ht) h rfl ?_
  · rintro t i c' d ⟨hi, ht, hmem⟩ hc hd hb
    have := length_le_commas hmem
    exact run_objectProperty hg hs hi ht hc (closes_of_comma_or rfl hd) (by omega) (by omega)
  · have := (forall₂_of_spellAll? hspell ht).length_eq
    have := length_le_length_commas is
    omega

theorem exists_of_isName {t : Tree} {i : List Item} (hi : spell? t = some i)
    (ht : t.isName = true) :
    ∃ w, isPlainName w = true ∧ t = leaf (.identifier w) ∧ i = [.word w] := by
  cases spells_of_spell? hi with
  | @identifier w hw => exact ⟨w, hw, rfl, rfl⟩
  | _ => simp [isName] at ht

theorem run_variableName (hs : s.IsPlain) {w : String} (hw : isPlainName w = true)
    (h : (Item.word w).Passes c d) : variableName s c = (some w, d) := by
  rw [variableName, run_token_bind, h.2.1]
  simp only [run_bind (run_require (hs.admits hw) c), run_bind (run_advance_token h), run_pure]

theorem run_decorators (hat : c.token.isMark .atSign = false) (hb : 0 < c.budget) :
    decorators g s c = (some (leaf .decorators), c) := by
  refine run_loop_of_inr hb ?_
  rw [run_bind (run_eatMark_not hat)]
  rfl

theorem run_parameters (hg : Sound g n) (hs : s.IsPlain) {ts : List Tree} {is : List (List Item)}
    (hspell : spellAll? ts = some is) (ht : ts.all isName = true)
    (h : Along (.mark .parenOpen :: (commas is ++ [.mark .parenClose])) c d) (hn : 1 < n)
    (hb : (commas is).length + 1 < c.budget) :
    parameters g s c = (some (node .parameters ts), d) := by
  obtain ⟨e, hopen, h⟩ := h
  have hitem : ∀ {t i c' m}, (spell? t = some i ∧ t.isName = true ∧ i ∈ is) → Along i c' m →
      m.token.closes = true → c'.budget = e.budget →
        (∀ k, eatMark k c' = (some false, c')) ∧
          decorators g s c' = (some (leaf .decorators), c') ∧
          (decorated (leaf .decorators) <$> bindingElement g s) c' = (some t, m) := by
    rintro t i c' m ⟨hi, ht, -⟩ hc hd hbudget
    obtain ⟨w, hw, rfl, rfl⟩ := exists_of_isName hi ht
    rw [along_singleton] at hc
    have hnot : ∀ k, c'.token.isMark k = false := by
      intro k
      rw [hc.2.1]
      rfl
    have hassign : (m.token == .assign none) = false := by
      rw [beq_eq_false_iff_ne]
      intro he
      rw [he] at hd
      cases hd
    have hbinding : bindingElement g s c' = (some (leaf (.identifier w)), m) := by
      rw [bindingElement, run_bind (hg.name hs hw hc hn), run_token_bind, hassign,
        if_neg Bool.false_ne_true, run_pure]
    have hb := hopen.shares.1
    exact ⟨fun k => run_eatMark_not (hnot k), run_decorators (hnot _) (by omega), run_map hbinding⟩
  have hlist : parameterList g s e = (some ts, d) := by
    refine run_commas (b := e.budget) ?_ ?_ ?_ (forall₂_of_spellAll? hspell ht) h rfl ?_
    · intro acc c d hc
      rw [run_bind (run_eatMark hc)]
      rfl
    · intro acc t i c' m d ht hi hm hb
      obtain ⟨hnot, hdecorators, hrun⟩ := hitem ht hi (by rw [hm.2.1]; rfl) hb
      have hcomma : m.token.isMark .comma = false := by
        rw [hm.2.1]
        rfl
      simp only [run_bind (hnot _), Bool.false_eq_true, if_false, run_bind hdecorators,
        run_bind hrun, run_bind (run_eatMark_not hcomma), run_bind (run_expectMark hm), run_pure]
    · intro acc t i c' m d ht hi hm hb
      obtain ⟨hnot, hdecorators, hrun⟩ := hitem ht hi (by rw [hm.2.1]; rfl) hb
      simp only [run_bind (hnot _), Bool.false_eq_true, if_false, run_bind hdecorators,
        run_bind hrun, run_bind (run_eatMark hm), if_true, run_pure]
    · have := (forall₂_of_spellAll? hspell ht).length_eq
      have := length_le_length_commas is
      have := hopen.shares.1
      omega
  rw [parameters, run_bind (run_expectMark hopen), run_bind hlist]
  rfl

theorem exists_of_isDeclarator {t : Tree} {is : List Item} (hspell : spell? t = some is)
    (hkind : t.isDeclarator = true) : ∃ w, isPlainName w = true ∧
      ((t = node .declarator [leaf (.identifier w)] ∧ is = [.word w]) ∨
        ∃ v j, spell? v = some j ∧ v.isExpression = true ∧
          t = node .declarator [leaf (.identifier w), v] ∧
          is = .word w :: .token (.assign none) :: j) := by
  cases spells_of_spell? hspell with
  | declarator hi ht =>
      obtain ⟨w, hw, rfl, rfl⟩ := exists_of_isName hi ht
      exact ⟨w, hw, .inl ⟨rfl, rfl⟩⟩
  | valued hi hv ht hu =>
      obtain ⟨w, hw, rfl, rfl⟩ := exists_of_isName hi ht
      exact ⟨w, hw, .inr ⟨_, _, hv, hu, rfl, rfl⟩⟩
  | _ => simp [isDeclarator] at hkind

/-- Declarators up to the end of a declaration, which is not passed. -/
theorem run_declarators (hg : Sound g n) (hs : s.IsPlain) {ts : List Tree}
    {is : List (List Item)} (hspell : spellAll? ts = some is) (ht : ts.all isDeclarator = true)
    (hne : ts ≠ []) (h : Along (commas is) c d) (hd : d.token = .mark .semicolon)
    (hn : (commas is).length + 1 < n) (hb : (commas is).length + 1 < c.budget) :
    declarators g s c = (some ts, d) := by
  have hassigns : ∀ {k : Mark}, (Token.mark k == .assign none) = false := fun {k} => rfl
  refine run_separated (Q := fun m d => m = d ∧ m.token = .mark .semicolon) (b := c.budget) ?_ ?_
    (forall₂_of_spellAll? hspell ht) hne h ⟨rfl, hd⟩ rfl ?_
  · rintro acc t i c' m d ⟨hi, ht, hmem⟩ hc ⟨rfl, hd⟩ hb
    have hlt := length_le_commas hmem
    have hcomma : eatMark .comma m = (some false, m) := run_eatMark_not (by rw [hd]; rfl)
    obtain ⟨w, hw, ⟨rfl, rfl⟩ | ⟨v, j, hv, hu, rfl, rfl⟩⟩ := exists_of_isDeclarator hi ht
    · simp only [run_bind (hg.name hs hw (along_singleton.mp hc) (by omega)), run_token_bind, hd,
        hassigns, Bool.false_eq_true, if_false, run_pure_bind,
        run_bind hcomma, run_pure]
    · obtain ⟨e, hname, e', hassign, h⟩ := hc
      have := hname.shares.1
      have := hassign.shares.1
      simp only [List.length_cons] at hlt
      have hvalue := hg.argument hs hv hu h (by rw [hd]; rfl) (by omega) (by omega)
      simp only [run_bind (hg.name hs hw hname (by omega)), run_token_bind, hassign.2.1,
        beq_self_eq_true, if_true, run_bind (run_advance_token hassign), run_bind hvalue,
        run_pure_bind, run_bind hcomma, Bool.false_eq_true, if_false, run_pure]
  · rintro acc t i c' m d ⟨hi, ht, hmem⟩ hc hm hb
    have hlt := length_le_commas hmem
    obtain ⟨w, hw, ⟨rfl, rfl⟩ | ⟨v, j, hv, hu, rfl, rfl⟩⟩ := exists_of_isDeclarator hi ht
    · simp only [run_bind (hg.name hs hw (along_singleton.mp hc) (by omega)), run_token_bind,
        hm.2.1, hassigns, Bool.false_eq_true, if_false, run_pure_bind,
        run_bind (run_eatMark hm), if_true, run_pure]
    · obtain ⟨e, hname, e', hassign, h⟩ := hc
      have := hname.shares.1
      have := hassign.shares.1
      simp only [List.length_cons] at hlt
      have hvalue := hg.argument hs hv hu h (by rw [hm.2.1]; rfl) (by omega) (by omega)
      simp only [run_bind (hg.name hs hw hname (by omega)), run_token_bind, hassign.2.1,
        beq_self_eq_true, if_true, run_bind (run_advance_token hassign), run_bind hvalue,
        run_pure_bind, run_bind (run_eatMark hm), run_pure]
  · have := (forall₂_of_spellAll? hspell ht).length_eq
    have := length_le_length_commas is
    omega

theorem not_else_of_begins {t : Token} (h : t.begins = true) : t.isWord "else" = false := by
  cases t with
  | name w e =>
      simp only [Token.begins, Bool.and_eq_true, Bool.not_eq_true', bne_iff_ne] at h
      simp [Token.isWord, h.2]
  | _ => rfl

theorem run_statements (hg : Sound g n) (hs : s.IsPlain)
    {step : List Tree → Parser (List Tree ⊕ List Tree)}
    (hmore : ∀ {acc t c m}, c.token.begins = true → g (.statement s true) c = (some t, m) →
      step acc c = (some (.inl (t :: acc)), m))
    (hend : ∀ {acc}, step acc m = (some (.inr acc.reverse), d)) {ts : List Tree}
    {is : List (List Item)} (hspell : spellAll? ts = some is) (ht : ts.all isStatement = true)
    (h : Along is.flatten c m) (hm : m.token.isWord "else" = false) (hn : is.flatten.length < n)
    (hb : is.flatten.length < c.budget) : loop [] step c = (some ts, d) := by
  have hloop : ∀ acc k, is.flatten.length < k →
      iterate step k acc c = (some (acc.reverse ++ ts), d) := by
    induction ts generalizing is c with
    | nil =>
        cases hspell
        rintro acc (_ | k) hk
        · cases hk
        · obtain rfl : c = m := h
          rw [run_iterate_inr hend, List.append_nil]
    | cons t ts ih =>
        rintro acc (_ | k) hk
        · cases hk
        obtain ⟨i, js, hi, hjs, rfl⟩ := exists_of_spellAll?_cons hspell
        rw [List.all_cons, Bool.and_eq_true] at ht
        rw [List.flatten_cons, along_append] at h
        obtain ⟨e, he, h⟩ := h
        have hbudget := he.budget_eq
        obtain ⟨-, hbegins⟩ := begins_of_along hi ht.1 he
        obtain ⟨k', rest, rfl, -⟩ := exists_beginning hi ht.1
        have hnext : e.token.isWord "else" = false := by
          cases ts with
          | nil =>
              cases hjs
              obtain rfl : e = m := h
              exact hm
          | cons u us =>
              obtain ⟨j, ls, hj, -, rfl⟩ := exists_of_spellAll?_cons hjs
              rw [List.all_cons, Bool.and_eq_true] at ht
              rw [List.flatten_cons, along_append] at h
              obtain ⟨e', he', -⟩ := h
              exact not_else_of_begins (begins_of_along hj ht.2.1 he').2
        simp only [List.flatten_cons, List.length_append, List.length_cons] at hn hb hk
        have hread : g (.statement s true) _ = _ := hg.statement hs hi ht.1 he hnext
          (by simp only [List.length_cons]; omega) (by simp only [List.length_cons]; omega)
        rw [run_iterate_inl (hmore hbegins hread),
          ih hjs ht.2 h (by omega) (by omega) _ _ (by omega)]
        simp
  rw [run_loop, hloop [] c.budget hb]
  rfl

theorem run_statementsToBrace (hg : Sound g n) (hs : s.IsPlain) {ts : List Tree}
    {is : List (List Item)} (hspell : spellAll? ts = some is) (ht : ts.all isStatement = true)
    (h : Along (is.flatten ++ [.mark .braceClose]) c d) (hn : is.flatten.length < n)
    (hb : is.flatten.length < c.budget) : statementsToBrace g s c = (some ts, d) := by
  obtain ⟨m, hm, hclose⟩ := along_append.mp h
  rw [along_singleton] at hclose
  refine run_statements hg hs ?_ ?_ hspell ht hm (by rw [hclose.2.1]; rfl) hn hb
  · intro acc t c m hbegins hread
    rw [run_bind (run_eatMark_of_opens (opens_of_begins hbegins) rfl), if_neg Bool.false_ne_true,
      run_bind hread, run_pure]
  · intro acc
    rw [run_bind (run_eatMark hclose)]
    rfl

theorem run_directives (hg : Sound g n) (hs : s.IsPlain) {ds : List String}
    (h : Along (directiveItems ds) c d) (hd : ∀ v l raw, d.token ≠ .string v l raw) (hn : 2 < n)
    (hb : ds.length + 2 < c.budget) : directives g s c = (some (ds, []), d) := by
  obtain ⟨step, hstep, hinl, hinr⟩ : ∃ step, directives g s = loop [] step ∧
      (∀ {acc raw c d}, c.token = .string raw false raw →
        g (.statement s true) c = (some (node .expression [leaf (.string raw false)]), d) →
          step acc c = (some (.inl (raw :: acc)), d)) ∧
      ∀ {acc c}, (∀ v l raw, c.token ≠ .string v l raw) →
        step acc c = (some (.inr (acc.reverse, [])), c) := by
    refine ⟨_, rfl, ?_, ?_⟩
    · intro acc raw c d ht hrun
      simp only [run_token_bind, ht, run_bind hrun, directive?]
      rfl
    · intro acc c ht
      rw [run_token_bind]
      generalize c.token = t at ht
      split
      · exact absurd rfl (ht _ _ _)
      · rfl
  have hloop : ∀ acc k, ds.length < k →
      iterate step k acc c = (some (acc.reverse ++ ds, []), d) := by
    induction ds generalizing c with
    | nil =>
        rintro acc (_ | k) hk
        · cases hk
        · obtain rfl : c = d := h
          rw [run_iterate_inr (hinr hd), List.append_nil]
    | cons raw ds ih =>
        rintro acc (_ | k) hk
        · cases hk
        obtain ⟨m, hm, h⟩ := along_append.mp (show Along
          ([.token (.string raw false raw), .mark .semicolon] ++ directiveItems ds) c d from h)
        have hread := hg.directive hs hm hn (by omega)
        have hbudget := hm.budget_eq
        obtain ⟨e, he, -⟩ := hm
        rw [List.length_cons] at hb hk
        rw [run_iterate_inl (hinl he.2.1 hread),
          ih h (by omega) _ _ (by omega)]
        simp
  rw [hstep, run_loop, hloop [] c.budget (by omega)]
  rfl

theorem length_directiveItems (ds : List String) : (directiveItems ds).length = 2 * ds.length := by
  induction ds with
  | nil => rfl
  | cons raw ds ih =>
      rw [directiveItems, List.flatMap_cons, List.length_append, ← directiveItems, ih,
        List.length_cons]
      simp only [List.length_cons, List.length_nil]
      omega

theorem run_functionBody (hg : Sound g n) (hs : s.IsPlain) {ds : List String} {ts : List Tree}
    {is : List Item} (hspell : spell? (node (.body ds) ts) = some is)
    (h : Along (.mark .braceOpen :: (is ++ [.mark .braceClose])) c d) (hn : is.length + 2 < n)
    (hb : is.length + 2 < c.budget) :
    functionBody g s c = (some (node (.body ds) ts), d) := by
  cases spells_of_spell? hspell with
  | @body _ _ iss hiss ht =>
      obtain ⟨e, hopen, h⟩ := h
      rw [List.append_assoc, along_append] at h
      obtain ⟨m, hdirectives, h⟩ := h
      rw [List.length_append, length_directiveItems] at hn hb
      have hbudget := hopen.shares.1
      have hbudget' := hdirectives.budget_eq
      have hstring : ∀ v l raw, m.token ≠ .string v l raw := by
        intro v l raw
        cases ts with
        | nil =>
            cases hiss
            rw [(along_singleton.mp h).2.1]
            rintro ⟨⟩
        | cons t ts =>
            obtain ⟨i, js, hi, -, rfl⟩ := exists_of_spellAll?_cons hiss
            rw [List.all_cons, Bool.and_eq_true] at ht
            rw [List.flatten_cons, List.append_assoc, along_append] at h
            obtain ⟨e', he', -⟩ := h
            have hbegins := (begins_of_along hi ht.1 he').2
            intro he
            rw [he] at hbegins
            cases hbegins
      have hlist := run_statementsToBrace hg hs hiss ht h (by omega) (by omega)
      have hds := run_directives hg hs hdirectives hstring (by omega) (by omega)
      simp only [functionBody, run_bind (run_expectMark hopen), run_bind hds, run_bind hlist,
        List.nil_append, run_pure]

theorem run_functionTail (hg : Sound g n) {name : Tree} {params body : List Tree}
    {ds : List String} {i j : List Item} (hi : spell? (node .parameters params) = some i)
    (hj : spell? (node (.body ds) body) = some j)
    (h : Along (.mark .parenOpen ::
      (i ++ .mark .parenClose :: .mark .braceOpen :: (j ++ [.mark .braceClose]))) c d)
    (hn : i.length + j.length + 2 < n) (hb : i.length + j.length + 2 < c.budget) :
    functionTail g false false name c =
      (some (node (.function false false false) [name, node .parameters params,
        node (.body ds) body]), d) := by
  cases spells_of_spell? hi with
  | @parameters _ is his hp =>
      obtain ⟨m, hm, h⟩ := along_append.mp (show Along ((.mark .parenOpen ::
        (commas is ++ [.mark .parenClose])) ++ (.mark .braceOpen :: (j ++ [.mark .braceClose])))
          c d by simpa using h)
      have hbudget := hm.budget_eq
      rw [functionTail, run_bind (run_parameters hg Scope.isPlain_function his hp hm (by omega)
        (by omega)), run_bind (run_functionBody hg Scope.isPlain_function hj h (by omega)
        (by omega))]
      rfl

end DefineBundle.Script
