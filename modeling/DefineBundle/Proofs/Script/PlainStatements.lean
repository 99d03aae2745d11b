import DefineBundle.Proofs.Script.PlainExpressions

/-!
# Reading plain statements

A plain statement is read back from its items, and so the grammar as a whole, unfolded as deep as
the text is long, reads every plain script.
-/
namespace DefineBundle.Script

open DefineBundle.Script.Tree DefineBundle.Script.Parser

variable {g : Grammar} {s : Scope} {c d m : Cursor} {n b : Nat} {isListed : Bool}

theorem run_anyExpression (hg : Sound g n) (hs : s.IsPlain) {t : Tree} {is : List Item}
    (hspell : spell? t = some is) (ht : t.isExpression = true) (h : Along is c d)
    (hd : d.token.closes = true) (hcomma : d.token.isMark .comma = false) (hn : is.length ≤ n)
    (hb : is.length < c.budget) : anyExpression g s c = (some t, d) := by
  have hat : atMark .comma d = (some false, d) := by
    rw [atMark, look, hcomma]
  rw [anyExpression, run_bind (run_assignment hg hs hspell ht h hd hn hb), expression, run_bind hat,
    if_neg Bool.false_ne_true, run_pure]

theorem run_endStatement (h : (Item.mark .semicolon).Passes c d) :
    endStatement c = (some (), d) := by
  have hend : atEnd c = (some true, c) := by
    rw [atEnd, look, h.2.1]
    rfl
  rw [endStatement, run_bind hend, run_bind (run_require rfl c), run_bind (run_eatMark h), run_pure]

theorem run_inParentheses (hg : Sound g n) (hs : s.IsPlain) {t : Tree} {is : List Item}
    (hspell : spell? t = some is) (ht : t.isExpression = true)
    (h : Along (.mark .parenOpen :: (is ++ [.mark .parenClose])) c d) (hn : is.length ≤ n)
    (hb : is.length < c.budget) : inParentheses g s c = (some t, d) := by
  obtain ⟨c', hopen, h⟩ := h
  obtain ⟨m, hm, hclose⟩ := along_append.mp h
  rw [along_singleton] at hclose
  have := hopen.shares.1
  rw [inParentheses, run_bind (run_expectMark hopen), run_bind (run_anyExpression hg hs hspell ht hm
    (by rw [hclose.2.1]; rfl) (by rw [hclose.2.1]; rfl) hn (by omega)),
    run_bind (run_expectMark hclose), run_pure]

theorem run_declarationStart (inLoop : Bool) (starts : Token → Bool)
    (h : (Item.word "var").Passes c d) :
    declarationStart inLoop starts c = (some (some .var), d) := by
  have hvar : c.token.isWord "var" = true := by
    rw [h.2.1]
    decide
  have hsome : (some BindingKind.var == some .asyncResource) = false := by decide
  simp only [declarationStart, run_get_bind, hvar, if_true, run_pure_bind, Option.isSome_some,
    run_bind (run_advance_token h), hsome, Bool.false_eq_true, if_false, run_pure]

theorem run_declarationStart_none (inLoop : Bool) (starts : Token → Bool)
    (h : ∀ w ∈ ["var", "const", "let", "using", "await"], c.token.isWord w = false) :
    declarationStart inLoop starts c = (some none, c) := by
  have hresource : startsResource inLoop c = false := by
    rw [startsResource, h "using" (by simp), Bool.false_and]
  have hnone : (none == some BindingKind.asyncResource) = false := by decide
  simp only [declarationStart, run_get_bind, h "var" (by simp), h "const" (by simp),
    h "let" (by simp), hresource, h "await" (by simp), Bool.false_eq_true, if_false, run_pure_bind,
    Option.isSome_none, hnone, run_pure]

theorem run_functionStart_none (h : ∀ w ∈ ["function", "async"], c.token.isWord w = false) :
    functionStart c = (some none, c) := by
  simp only [functionStart, run_token_bind, h "function" (by simp), h "async" (by simp),
    Bool.false_eq_true, if_false, run_pure]

/-- A statement that begins with none of the words of a declaration or a function. -/
theorem plainStatement_eq (hd : ∀ w ∈ ["var", "const", "let", "using", "await", "function", "async"],
    c.token.isWord w = false) :
    plainStatement g s isListed c = (match c.token with
      | .mark .braceOpen => block g s
      | .mark .semicolon => do
          advance
          pure (leaf .empty)
      | .mark .atSign => do
          require isListed
          decoratedStatement g s
      | .name word false => keywordStatement g s isListed word
      | _ => expressionStatement g s) c := by
  rw [plainStatement,
    run_bind (run_declarationStart_none _ _ fun w hw => hd w (by simp at hw ⊢; tauto))]
  dsimp only
  rw [run_bind (run_functionStart_none fun w hw => hd w (by simp at hw ⊢; tauto))]
  rfl

theorem run_expressionStatement (hg : Sound g n) (hs : s.IsPlain) {e : Tree} {i : List Item}
    (hspell : spell? e = some i) (ht : e.isExpression = true)
    (h : Along (i ++ [.mark .semicolon]) c d) (hn : i.length ≤ n) (hb : i.length < c.budget) :
    expressionStatement g s c = (some (node .expression [e]), d) := by
  obtain ⟨m, hm, hend⟩ := along_append.mp h
  rw [along_singleton] at hend
  have hcolon : eatMark .colon m = (some false, m) := run_eatMark_not (by rw [hend.2.1]; rfl)
  rw [expressionStatement, run_bind (run_anyExpression hg hs hspell ht hm (by rw [hend.2.1]; rfl)
    (by rw [hend.2.1]; rfl) hn hb)]
  split
  · rw [run_bind hcolon, if_neg Bool.false_ne_true, run_bind (run_endStatement hend), run_pure]
  · rw [run_bind (run_endStatement hend), run_pure]

theorem any_lacksValue {ts : List Tree} {is : List (List Item)} (hspell : spellAll? ts = some is)
    (ht : ts.all isDeclarator = true) : ts.any (lacksValue .var) = false := by
  rw [List.any_eq_false]
  intro t hmem
  have hall := List.all_eq_true.mp ht t hmem
  obtain ⟨i, hi⟩ : ∃ i, spell? t = some i := by
    induction ts generalizing is with
    | nil => cases hmem
    | cons u us ih =>
        obtain ⟨i, js, hi, hjs, rfl⟩ := exists_of_spellAll?_cons hspell
        rw [List.all_cons, Bool.and_eq_true] at ht
        rcases List.mem_cons.mp hmem with rfl | hmem
        · exact ⟨i, hi⟩
        · exact ih hjs ht.2 hmem
  obtain ⟨w, -, ⟨rfl, -⟩ | ⟨v, j, -, -, rfl, -⟩⟩ := exists_of_isDeclarator hi hall
  · simp only [lacksValue]
    decide
  · simp [lacksValue]

theorem run_declaration (hg : Sound g n) (hs : s.IsPlain) {ts : List Tree}
    {is : List (List Item)} (hspell : spellAll? ts = some is) (ht : ts.all isDeclarator = true)
    (hne : ts ≠ []) (h : Along (.word "var" :: (commas is ++ [.mark .semicolon])) c d)
    (hn : (commas is).length + 1 < n) (hb : (commas is).length + 1 < c.budget) :
    plainStatement g s isListed c = (some (node (.declaration .var) ts), d) := by
  obtain ⟨c', hvar, h⟩ := h
  obtain ⟨m, hm, hend⟩ := along_append.mp h
  rw [along_singleton] at hend
  have := hvar.shares.1
  have hdeclarators := run_declarators hg hs hspell ht hne hm hend.2.1 hn (by omega)
  have hkind : (isListed || BindingKind.var == .var) = true := by simp
  have hvalues : (!ts.any (lacksValue .var) && (!isResource .var || ts.all isNamed)) = true := by
    rw [any_lacksValue hspell ht]
    rfl
  rw [plainStatement, run_bind (run_declarationStart _ _ hvar)]
  dsimp only
  rw [run_bind (run_require hkind c'), run_bind hdeclarators, run_bind (run_require hvalues m),
    run_bind (run_endStatement hend), run_pure]

theorem run_ifStatement (hg : Sound g n) (hs : s.IsPlain) {t u : Tree} {i j : List Item}
    (hi : spell? t = some i) (hj : spell? u = some j) (ht : t.isExpression = true)
    (hu : u.isStatement = true)
    (h : Along (.word "if" :: .mark .parenOpen :: (i ++ .mark .parenClose :: j)) c d)
    (hd : d.token.isWord "else" = false) (hn : i.length + j.length < n)
    (hb : i.length + j.length < c.budget) :
    ifStatement g s c = (some (node .ifElse [t, u]), d) := by
  obtain ⟨c', hif, h⟩ := h
  obtain ⟨m, hm, h⟩ := along_append.mp (show Along ((.mark .parenOpen :: (i ++ [.mark .parenClose]))
    ++ j) c' d by simpa using h)
  have := hif.shares.1
  have := hm.budget_eq
  have hbody : g (.statement s false) _ = _ := hg.statement hs hj hu h hd (by omega) (by omega)
  rw [ifStatement, run_bind (run_advance_token hif),
    run_bind (run_inParentheses hg hs hi ht hm (by omega) (by omega)), bodyOf, run_bind hbody,
    run_bind (show eatWord "else" d = (some false, d) from run_eat_not hd),
    if_neg Bool.false_ne_true, run_pure]

theorem run_atMark {k : Mark} (h : c.token.isMark k = false) : atMark k c = (some false, c) := by
  rw [atMark, look, h]

theorem run_atMark_of_opens {k : Mark} (h : c.token.opens = true)
    (hk : (Token.mark k).opens = false) : atMark k c = (some false, c) :=
  run_atMark (isMark_of_opens h hk)

theorem run_atWord {w : String} (h : c.token.isWord w = false) : atWord w c = (some false, c) := by
  rw [atWord, look, h]

theorem run_forRest (hg : Sound g n) (hs : s.IsPlain) {t u v : Tree} {i j k : List Item}
    (hi : spell? t = some i) (hj : spell? u = some j) (hk : spell? v = some k)
    (ht : t.isExpression = true) (hu : u.isExpression = true) (hv : v.isStatement = true)
    (h : Along (.mark .semicolon :: (i ++ .mark .semicolon :: (j ++ .mark .parenClose :: k))) c d)
    (hd : d.token.isWord "else" = false) (hn : i.length + j.length + k.length < n)
    (hb : i.length + j.length + k.length < c.budget) (start : Tree) :
    forRest g s start c = (some (node .forLoop [start, t, u, v]), d) := by
  obtain ⟨c₁, hsemicolon, h⟩ := h
  obtain ⟨c₂, htest, c₃, hsemicolon', h⟩ := along_append.mp h
  obtain ⟨c₄, hupdate, c₅, hclose, hbody⟩ := along_append.mp h
  have h₁ := hsemicolon.shares.1
  have h₃ := htest.budget_eq.symm.trans hsemicolon'.shares.1.symm
  have h₅ := hupdate.budget_eq.symm.trans hclose.shares.1.symm
  have htest' := run_anyExpression hg hs.bracketed hi ht htest (by rw [hsemicolon'.2.1]; rfl)
    (by rw [hsemicolon'.2.1]; rfl) (by omega) (by omega)
  have hupdate' := run_anyExpression hg hs.bracketed hj hu hupdate (by rw [hclose.2.1]; rfl)
    (by rw [hclose.2.1]; rfl) (by omega) (by omega)
  have hbody' : g (.statement s false) _ = _ :=
    hg.statement hs hk hv hbody hd (by omega) (by omega)
  have htestOpens := (opens_of_along hi ht htest).2.1
  have hupdateOpens := (opens_of_along hj hu hupdate).2.1
  have hat := run_atMark_of_opens htestOpens (k := .semicolon) rfl
  have hat' := run_atMark_of_opens hupdateOpens (k := .parenClose) rfl
  simp only [forRest, run_bind (run_expectMark hsemicolon), run_bind hat, Bool.false_eq_true,
    if_false, run_bind htest', run_bind (run_expectMark hsemicolon'), run_bind hat',
    run_bind hupdate', run_bind (run_expectMark hclose), bodyOf, run_bind hbody', run_pure]

/-- Variables that a semicolon follows start a plain loop. -/
theorem run_forDeclared {ts : List Tree} (hsemicolon : c.token = .mark .semicolon)
    (hvalues : ts.any (lacksValue .var) = false) :
    forDeclared g s false .var ts c = forRest g s (node (.declaration .var) ts) c := by
  have hwords : ∀ w, c.token.isWord w = false := fun w => by
    rw [hsemicolon]
    rfl
  have hlack : (!ts.any (lacksValue .var)) = true := by
    rw [hvalues]
    rfl
  rw [forDeclared, run_bind (run_require (by rfl) c), run_bind (run_atWord (hwords _)),
    if_neg Bool.false_ne_true, run_bind (run_require (by rfl) c),
    run_bind (run_atWord (hwords _)), if_neg Bool.false_ne_true,
    run_bind (run_require hlack c)]

theorem run_forStatement (hg : Sound g n) (hs : s.IsPlain) {ds : List Tree} {t u v : Tree}
    {h' i j k : List Item} (hh : spell? (node (.declaration .var) ds) = some h')
    (hi : spell? t = some i) (hj : spell? u = some j) (hk : spell? v = some k)
    (ht : t.isExpression = true) (hu : u.isExpression = true) (hv : v.isStatement = true)
    (h : Along (.word "for" :: .mark .parenOpen :: (h' ++ (i ++ .mark .semicolon ::
      (j ++ .mark .parenClose :: k)))) c d)
    (hd : d.token.isWord "else" = false) (hn : h'.length + i.length + j.length + k.length < n)
    (hb : h'.length + i.length + j.length + k.length < c.budget) :
    forStatement g s c = (some (node .forLoop [node (.declaration .var) ds, t, u, v]), d) := by
  cases spells_of_spell? hh with
  | @declaration t' ts is his hds =>
      obtain ⟨c₁, hfor, c₂, hopen, c₃, hvar, h⟩ := h
      obtain ⟨c₄, hdeclarators, hrest⟩ := along_append.mp (show Along
        (commas is ++ .mark .semicolon :: (i ++ .mark .semicolon :: (j ++ .mark .parenClose :: k)))
          c₃ d by simpa using h)
      have h₁ := hfor.shares.1
      have h₂ := hopen.shares.1
      have h₃ := hvar.shares.1
      have h₄ := hdeclarators.budget_eq
      have hsemicolon : c₄.token = .mark .semicolon := by
        obtain ⟨_, hmark, -⟩ := hrest
        exact hmark.2.1
      simp only [List.length_cons, List.length_append, List.length_nil] at hn hb
      have hds' := run_declarators hg hs.loopHead his hds (List.cons_ne_nil _ _) hdeclarators
        hsemicolon (by omega) (by omega)
      have hvalues : (t' :: ts).any (lacksValue .var) = false := any_lacksValue his hds
      have hdeclared := run_forDeclared (g := g) (s := s) hsemicolon hvalues
      have hloop := run_forRest hg hs hi hj hk ht hu hv hrest hd (by omega) (by omega)
        (node (.declaration .var) (t' :: ts))
      have hat : atMark .semicolon c₂ = (some false, c₂) := run_atMark (by rw [hvar.2.1]; rfl)
      simp only [forStatement, run_bind (run_advance_token hfor), hs.inAsync, Bool.false_eq_true,
        if_false, run_pure_bind, run_bind (run_expectMark hopen), run_bind hat, Bool.false_and,
        run_bind (run_declarationStart _ _ hvar), run_bind hds', hdeclared, hloop]

theorem run_functionDeclaration (hg : Sound g n) (hs : s.IsPlain) {w : String}
    {params body : List Tree} {ds : List String} {i j : List Item} (hw : isPlainName w = true)
    (hi : spell? (node .parameters params) = some i) (hj : spell? (node (.body ds) body) = some j)
    (h : Along (.word "function" :: .word w :: .mark .parenOpen ::
      (i ++ .mark .parenClose :: .mark .braceOpen :: (j ++ [.mark .braceClose]))) c d)
    (hn : i.length + j.length + 2 < n) (hb : i.length + j.length + 2 < c.budget) :
    plainStatement g s isListed c = (some (node (.function false false false)
      [leaf (.identifier w), node .parameters params, node (.body ds) body]), d) := by
  obtain ⟨c', hfunction, m, hname, h⟩ := h
  have := hfunction.shares.1
  have := hname.shares.1
  have hstart : declarationStart false (startsDeclarator isListed) c = (some none, c) :=
    run_declarationStart_none _ _ (by rw [hfunction.2.1]; decide)
  have hkeyword : functionStart c = (some (some false), c) := by
    have hword : c.token.isWord "function" = true := by
      rw [hfunction.2.1]
      decide
    rw [functionStart, run_token_bind, hword, if_pos rfl, run_pure]
  have hmul : (Token.name w false == .operator .mul) = false := by simp
  have hrequire : (isListed || !(false || false)) = true := by simp
  have htail : functionTail g false false (leaf (.identifier w)) _ = _ :=
    run_functionTail hg hi hj h hn (by omega)
  simp only [plainStatement, run_bind hstart, run_bind hkeyword, functionDeclaration,
    run_bind (run_expectWord hfunction), run_token_bind, hname.2.1, hmul, Bool.false_eq_true,
    if_false, run_bind (run_variableName hs hw hname), run_bind (run_require hrequire m), htail]

theorem run_throwing (hg : Sound g n) (hs : s.IsPlain) {e : Tree} {i : List Item}
    (hspell : spell? e = some i) (ht : e.isExpression = true)
    (h : Along (.word "throw" :: .glue :: (i ++ [.mark .semicolon])) c d) (hn : i.length ≤ n)
    (hb : i.length < c.budget) :
    keywordStatement g s isListed "throw" c = (some (node .throwing [e]), d) := by
  obtain ⟨c', hthrow, _, ⟨hfresh, rfl⟩, h⟩ := h
  obtain ⟨m, hm, hend⟩ := along_append.mp h
  rw [along_singleton] at hend
  have := hthrow.shares.1
  have hisFresh : isFresh c' = (some false, c') := by
    rw [isFresh, look, hfresh]
  have hrun := run_anyExpression hg hs hspell ht hm (by rw [hend.2.1]; rfl) (by rw [hend.2.1]; rfl)
    hn (by omega)
  simp only [keywordStatement, run_bind (run_advance_token hthrow), run_bind hisFresh,
    run_bind (run_require (b := !false) rfl c'), run_bind hrun, run_bind (run_endStatement hend),
    run_pure]

/-- A statement that begins with a plain name is an expression. -/
theorem keywordStatement_eq {w : String} (hw : isPlainName w = true) :
    keywordStatement g s isListed w = expressionStatement g s := by
  have hne : ∀ k, isPlainName k = false → w ≠ k := fun k => ne_of_isPlainName hw
  unfold keywordStatement
  split <;> first | rfl | exact absurd rfl (hne _ (by decide))

theorem token_of_opensStatement {is js : List Item} (ho : opensStatement is = true)
    (h : Along (is ++ js) c d) :
    (∃ w, isPlainName w = true ∧ c.token = .name w false) ∨ c.token = .mark .parenOpen := by
  unfold opensStatement at ho
  split at ho
  · obtain ⟨m, hm, -⟩ := h
    exact .inl ⟨_, ho, hm.2.1⟩
  · obtain ⟨m, hm, -⟩ := h
    exact .inr hm.2.1
  · cases ho

theorem run_plainStatement (hg : Sound g n) (hs : s.IsPlain) {t : Tree} {is : List Item}
    (hspell : spell? t = some is) (ht : t.isStatement = true) (h : Along is c d)
    (hd : d.token.isWord "else" = false) (hn : is.length ≤ n) (hb : is.length < c.budget) :
    plainStatement g s isListed c = (some t, d) := by
  cases spells_of_spell? hspell with
  | @function name params body ds k i j hname hi hj hkind =>
      rw [isStatement, Bool.not_eq_true'] at ht
      rw [ht, Bool.false_or] at hkind
      obtain ⟨w, hw, rfl, rfl⟩ := exists_of_isName hname hkind
      simp only [List.length_cons, List.length_append, List.length_nil] at hn hb
      exact run_functionDeclaration hg hs hw hi hj h (by omega) (by omega)
  | declaration his hds =>
      simp only [List.length_cons, List.length_append, List.length_nil] at hn hb
      exact run_declaration hg hs his hds (List.cons_ne_nil _ _) h (by omega) (by omega)
  | @expression e i he hexpression ho =>
      rw [List.length_append] at hn hb
      have hrun := run_expressionStatement hg hs he hexpression h (by omega) (by omega)
      rcases token_of_opensStatement ho h with ⟨w, hw, hc⟩ | hc
      · rw [plainStatement_eq, hc]
        · exact (congrFun (keywordStatement_eq hw) c).trans hrun
        · rw [hc]
          have hwords : ∀ k ∈ ["var", "const", "let", "using", "await", "function", "async"],
              isPlainName k = false := by
            decide
          exact fun k hk => isWord_of_isPlainName hw (hwords k hk)
      · rw [plainStatement_eq (by rw [hc]; decide), hc]
        exact hrun
  | @block ts is his hall =>
      obtain ⟨m, hopen, h⟩ := h
      have := hopen.shares.1
      simp only [List.length_cons, List.length_append] at hn hb
      rw [plainStatement_eq (by rw [hopen.2.1]; decide), hopen.2.1]
      change block g s c = _
      rw [block, run_bind (run_expectMark hopen),
        run_bind (run_statementsToBrace hg hs his hall h (by omega) (by omega)), run_pure]
  | ifElse hi hj ht' hu =>
      simp only [List.length_cons, List.length_append] at hn hb
      have hrun := run_ifStatement hg hs hi hj ht' hu h hd (by omega) (by omega)
      obtain ⟨m, hword, -⟩ := h
      rw [plainStatement_eq (by rw [hword.2.1]; decide), hword.2.1]
      exact hrun
  | forLoop hh hi hj hk ht' hu hv =>
      simp only [List.length_cons, List.length_append] at hn hb
      have hrun := run_forStatement hg hs hh hi hj hk ht' hu hv h hd (by omega) (by omega)
      obtain ⟨m, hword, -⟩ := h
      rw [plainStatement_eq (by rw [hword.2.1]; decide), hword.2.1]
      exact hrun
  | throwing he ht' =>
      simp only [List.length_cons, List.length_append, List.length_nil] at hn hb
      have hrun : keywordStatement g s isListed "throw" _ = _ :=
        run_throwing hg hs he ht' h (by omega) (by omega)
      obtain ⟨m, hword, -⟩ := h
      rw [plainStatement_eq (by rw [hword.2.1]; decide), hword.2.1]
      exact hrun
  | _ => simp [isStatement] at ht

theorem run_directive (hg : Sound g n) (hs : s.IsPlain) {raw : String}
    (h : Along [.token (.string raw false raw), .mark .semicolon] c d) (hn : 1 < n)
    (hb : 1 < c.budget) :
    plainStatement g s true c = (some (node .expression [leaf (.string raw false)]), d) := by
  obtain ⟨m, hm, hend⟩ := h
  have hstring : Along [.string raw false] c m := along_singleton.mpr ⟨hm.1, ⟨raw, hm.2.1⟩, hm.2.2⟩
  have hspell : spell? (leaf (.string raw false)) = some [.string raw false] := rfl
  have hrun := run_expressionStatement hg hs hspell rfl (along_append.mpr ⟨m, hstring, hend⟩)
    (by simp; omega) (by simpa using hb)
  rw [plainStatement_eq (fun w _ => by rw [hm.2.1]; rfl), hm.2.1]
  exact hrun

theorem run_statement (hc : c.IsQuiet) {t : Tree}
    (h : plainStatement g s isListed c = (some t, d)) :
    statement g s isListed c = (some t, d) := by
  rw [statement, run_look_bind, hc.2, run_bind h]
  rfl

/-- With a reader for nested goals of less than `n` items there is one for goals of `n` items. -/
theorem Sound.rule (hg : Sound g n) : Sound (Goal.rule g) (n + 1) where
  argument hs hi ht h hd hn hb := run_assignment hg hs hi ht h hd (Nat.le_of_lt_succ hn) hb
  operand hs hi ht h hd hn hb := run_unary hg hs hi ht h hd (Nat.le_of_lt_succ hn) hb
  name := by
    intro s w c d hs hw h _
    change binding g s c = _
    rw [binding, run_token_bind, h.2.1]
    exact run_bind (run_variableName hs hw h)
  statement hs hi ht h hd hn hb :=
    run_statement (begins_of_along hi ht h).1
      (run_plainStatement hg hs hi ht h hd (Nat.le_of_lt_succ hn) hb)
  directive := by
    intro s raw c d hs h hn hb
    have hquiet : c.IsQuiet := by
      obtain ⟨m, hm, -⟩ := h
      exact hm.1
    exact run_statement hquiet (run_directive hg hs h (by omega) (by omega))

theorem sound_unfolded (n : Nat) : Sound (Goal.unfolded n) n := by
  induction n with
  | zero =>
      refine ⟨?_, ?_, ?_, ?_, ?_⟩ <;> intros <;> omega
  | succ n ih => exact ih.rule

end DefineBundle.Script
