import DefineBundle.Proofs.Script.PlainForm.Types

/-!
# Expressions in plain form

Regular expressions and template literals are read from the characters and not from tokens. Their
texts are kept as they are written, in the plain form of what they were.
-/
namespace DefineBundle.Script.PlainForm

open DefineBundle.Script.Parser DefineBundle.Script.Tree
open DefineBundle.Text DefineBundle.Text.PlainAscii

theorem isArrow_respelled (t : Tree) : isArrow t.respelled = isArrow t := by
  obtain ⟨f, ps⟩ := t
  cases f <;> rfl

theorem hasUnaryOp_respelled (t : Tree) : hasUnaryOp t.respelled = hasUnaryOp t := by
  obtain ⟨f, ps⟩ := t
  cases f <;> rfl

theorem isMixed_respelled (t : Tree) : isMixed t.respelled = isMixed t := by
  obtain ⟨f, ps⟩ := t
  cases f with
  | binary op => cases op <;> rfl
  | _ => rfl

theorem markedPure_respelled (t : Tree) : markedPure t.respelled = (markedPure t).respelled := by
  cases t with
  | node f ps =>
      cases f with
      | chain =>
          rcases ps with _ | ⟨⟨f, qs⟩, _ | ⟨_, _⟩⟩
          · rfl
          · cases f <;> rfl
          · cases f <;> rfl
      | binary op =>
          rcases ps with _ | ⟨l, _ | ⟨r, _ | ⟨_, _⟩⟩⟩
          · rfl
          · rfl
          · show node (.binary op) [markedPure l.respelled, r.respelled] =
              node (.binary op) [(markedPure l).respelled, r.respelled]
            rw [markedPure_respelled l]
          · rfl
      | conditional =>
          rcases ps with _ | ⟨test, _ | ⟨a, _ | ⟨b, _ | ⟨_, _⟩⟩⟩⟩
          · rfl
          · rfl
          · rfl
          · show node .conditional [markedPure test.respelled, a.respelled, b.respelled] =
              node .conditional [(markedPure test).respelled, a.respelled, b.respelled]
            rw [markedPure_respelled test]
          · rfl
      | parens =>
          rcases ps with _ | ⟨e, _ | ⟨_, _⟩⟩
          · rfl
          · show node .parens [markedPure e.respelled] = node .parens [(markedPure e).respelled]
            rw [markedPure_respelled e]
          · rfl
      | _ => rfl
termination_by structural t

theorem markedEffectFree_respelled (t : Tree) :
    markedEffectFree t.respelled = (markedEffectFree t).respelled := by
  obtain ⟨f, ps⟩ := t
  cases f <;> rfl

/-- A word that is not plain is none of the grammar. -/
theorem beq_eq_false_of_foreign {u w : String} (hu : foreign u.toList = false)
    (hw : foreign w.toList = true) : (w == u) = false := by
  refine beq_false_of_ne ?_
  rintro rfl
  rw [hu] at hw
  cases hw

theorem unaryOp?_foreign {n : String} (hn : foreign n.toList = true) (e : Bool) :
    unaryOp? (.name n e) = none := by
  unfold unaryOp?
  split <;> first | rfl | cases ‹Token.name n e = _›
  all_goals cases hn

theorem unaryOp?_respelled (t : Token) : unaryOp? t.respelled = unaryOp? t := by
  cases t with
  | name n e =>
      rw [Token.respelled]
      cases hn : foreign n.toList with
      | false => rw [Bool.or_false]
      | true => rw [unaryOp?_foreign hn, unaryOp?_foreign hn]
  | _ => rfl

theorem binaryOp?_foreign {n : String} (hn : foreign n.toList = true) (s : Scope) (e : Bool) :
    binaryOp? s (.name n e) = none := by
  unfold binaryOp?
  split <;> first | rfl | cases ‹Token.name n e = _›
  all_goals cases hn

theorem binaryOp?_respelled (s : Scope) (t : Token) : binaryOp? s t.respelled = binaryOp? s t := by
  cases t with
  | name n e =>
      rw [Token.respelled]
      cases hn : foreign n.toList with
      | false => rw [Bool.or_false]
      | true => rw [binaryOp?_foreign hn, binaryOp?_foreign hn]
  | _ => rfl

/-- What stands between parentheses in a plain form. -/
def parenthesizedRespelled (p : Parenthesized) : Parenthesized :=
  ⟨p.items.map respelled, p.needsArrow⟩

namespace Parallel

variable {text cs : List Char} {g : Grammar}

theorem atArrow : Parallel text id atArrow atArrow := by
  refine look fun c c' hc => ?_
  rw [hc.token, hc.gap, isMark_respelled]
  rfl

theorem annotatedOperand {operand : Parser Tree} (h : Parallel text respelled operand operand) :
    Parallel text respelled (annotatedOperand operand) (annotatedOperand operand) := by
  refine Parallel.bind (f := id) (look fun c c' hc => congrArg Gap.isPure hc.gap) fun isPure =>
    h.bind fun e => pure ?_
  cases isPure
  · rfl
  · exact markedPure_respelled e

theorem element (hg : Keeps text g) (s : Scope) : Parallel text respelled
    (do if ← Parser.eatMark .ellipsis then Parser.spread g s else g (.assignment s.bracketed))
    (do if ← Parser.eatMark .ellipsis then Parser.spread g s else g (.assignment s.bracketed)) :=
  (eatMark _).bind fun _ => ite (spread hg s) (hg _)

theorem arrayItems (hg : Keeps text g) (s : Scope) :
    Parallel text (List.map respelled) (arrayItems g s) (arrayItems g s) := by
  refine loop (f := List.map respelled) rfl fun acc => ?_
  refine (eatMark _).bind fun _ => ite (pure_reverse acc) ?_
  refine (eatMark _).bind fun _ => ite (pure rfl) ?_
  refine (eatMark _).bind fun _ => iteThen (f := respelled) (spread hg s) (hg _) fun t => ?_
  refine (eatMark _).bind fun _ => ite (pure rfl) ?_
  exact (expectMark _).bind fun _ => pure_reverse (t :: acc)

/-- A regular expression begins with a slash, which is plain. -/
theorem regularExpression {c c' : Cursor} (hc : Matches text c c')
    (ht : ∀ n e, c.token ≠ .name n e) :
    ParallelAt text respelled Parser.regularExpression Parser.regularExpression c c' := by
  have hread := hc.read
  have hbehind := hc.behind
  have hdrop : c'.here.drop 1 = plain (c.here.drop 1) ∧ Behind text (c.here.drop 1) := by
    rw [hc.here]
    cases hhere : c.here with
    | nil =>
        rw [hhere] at hbehind
        exact ⟨rfl, hbehind⟩
    | cons d ds =>
        rw [hhere] at hread hbehind
        have hplain : isPlain d = true ∧ d ≠ '\\' := by
          refine ⟨Bool.not_eq_false _ ▸ fun hd => ?_, fun hd => ?_⟩
          · obtain ⟨n, e, he⟩ := isName_of_next? (.inl hd) hread
            exact ht n e he
          · obtain ⟨n, e, he⟩ := isName_of_next? (.inr hd) hread
            exact ht n e he
        rw [plain_cons hplain.1]
        exact ⟨rfl, hbehind.trans (behind_of_cons hplain.2 Behind.refl hbehind.steady)⟩
  obtain ⟨hregex, hrest⟩ := agrees_regex? hdrop.2.steady
  refine get_bind ?_
  rw [hdrop.1, hregex]
  cases hz : Literal.regex? (c.here.drop 1) with
  | none => exact failure c c' hc
  | some z =>
      have hresumed := resume (hdrop.2.trans (hrest z hz))
      exact (hresumed.bind fun _ => pure rfl : Parallel text respelled
        (do Parser.resume z.2.2; Pure.pure (leaf (.regex z.1 z.2.1))) _) c c' hc

theorem expression (hg : Keeps text g) (s : Scope) (first : Tree) :
    Parallel text respelled (expression g s first) (expression g s first.respelled) := by
  refine (atMark _).bind fun _ => ite ?_ (pure rfl)
  refine loop (f := List.map respelled) rfl fun acc => ?_
  refine (eatMark _).bind fun _ => ite ((hg _).bind fun _ => pure rfl) ?_
  exact built_reverse rfl acc

theorem nestedExpression (hg : Keeps text g) (s : Scope) :
    Parallel text respelled (nestedExpression g s) (nestedExpression g s) :=
  (hg _).bind fun e => expression hg s.bracketed e

theorem templateChunk (mayBeInvalid : Bool) (hcs : Behind text cs) :
    Parallel text (Prod.map respell id) (templateChunk mayBeInvalid cs)
      (templateChunk mayBeInvalid (plain cs)) := by
  obtain ⟨hchunk, hrest⟩ := agrees_chunk? hcs.steady
  unfold Parser.templateChunk
  rw [hchunk]
  cases hz : Literal.chunk? cs with
  | none => exact failure
  | some z =>
      exact (require _).bind fun _ => (resume (hcs.trans (hrest z hz))).bind fun _ => pure rfl

theorem template (hg : Keeps text g) (s : Scope) (isTagged : Bool) :
    Parallel text respelled (template g s isTagged) (template g s isTagged) := by
  have hchunk : ∀ {c c' : Cursor}, Matches text c c' → Parallel text (Prod.map respell id)
      (Parser.templateChunk isTagged c.rest) (Parser.templateChunk isTagged c'.rest) := fun hc => by
    rw [hc.rest]
    exact templateChunk isTagged hc.behindRest
  refine fun c c' hc => get_bind (((hchunk hc).bind fun z => ?_) c c' hc)
  refine loop (f := Prod.map (List.map respell) (Prod.map (List.map respelled) id)) rfl fun z => ?_
  obtain ⟨chunks, es, isLast⟩ := z
  refine ite (pure ?_) ?_
  · simp [Form.respelled]
  · refine (nestedExpression hg s).bind fun e => (atMark _).bind fun _ => ?_
    refine (require _).bind fun _ => ?_
    refine fun c c' hc => get_bind (((hchunk hc).bind fun z => ?_) c c' hc)
    exact pure rfl

theorem parenthesized (hg : Keeps text g) (s : Scope) :
    Parallel text parenthesizedRespelled (parenthesized g s) (parenthesized g s) := by
  refine (eatMark _).bind fun _ => ite (pure rfl) ?_
  refine loop (f := List.map respelled) rfl fun acc => (eatMark _).bind fun _ => ite ?_ ?_
  · refine (restElement hg s).bind fun t => (expectMark _).bind fun _ => pure ?_
    simp [parenthesizedRespelled]
  · refine (hg _).bind fun e => (eatMark _).bind fun _ => ite ?_ ?_
    · refine (eatMark _).bind fun _ => ite (pure ?_) (pure rfl)
      simp [parenthesizedRespelled]
    · refine (expectMark _).bind fun _ => pure ?_
      simp [parenthesizedRespelled]

theorem parenthesis (hg : Keeps text g) (s : Scope) (mayBeArrow : Bool) :
    Parallel text respelled (parenthesis g s mayBeArrow) (parenthesis g s mayBeArrow) := by
  refine (expectMark _).bind fun _ => (parenthesized hg s).bind fun p => ?_
  obtain ⟨items, needsArrow⟩ := p
  refine atArrow.bind fun _ => ite ?_ ?_
  · exact (asParameters items).bind fun ps => arrowTail hg s false ps
  · refine (require _).bind fun _ => ?_
    match items with
    | [e] => exact pure rfl
    | [] => exact pure rfl
    | _ :: _ :: _ => exact pure (by simp [Form.respelled])

theorem arguments (hg : Keeps text g) (s : Scope) :
    Parallel text (List.map respelled) (arguments g s) (arguments g s) :=
  commaSeparated _ (element hg s)

theorem asyncParameter (s : Scope) :
    Parallel text respelled (asyncParameter s) (asyncParameter s) :=
  (variableName s).bind fun _ => atArrow.bind fun _ => (require _).bind fun _ => pure rfl

theorem asyncParameters (hg : Keeps text g) (s : Scope) :
    Parallel text respelled (asyncParameters g s) (asyncParameters g s) :=
  (parameters hg _).bind fun _ => atArrow.bind fun _ => (require _).bind fun _ => pure rfl

theorem asyncStart (hg : Keeps text g) (s : Scope) (mayBeArrow : Bool) :
    Parallel text respelled (asyncStart g s mayBeArrow) (asyncStart g s mayBeArrow) := by
  have hname : Parallel text respelled (Pure.pure (leaf (.identifier "async")))
      (Pure.pure (leaf (.identifier "async"))) := pure rfl
  refine advance.bind fun _ => isFresh.bind fun isFresh => token.bind fun t => ?_
  cases t with
  | name w e =>
      have hword : (w == "function" && !(e || foreign w.toList)) = (w == "function" && !e) :=
        isWord_respelled rfl (.name w e)
      rw [Token.respelled]
      simp only [Bool.and_assoc, id, hword]
      refine ite (functionExpression hg true) (ite ?_ hname)
      refine (attempt (asyncParameter s)).bind fun ps => ?_
      cases ps with
      | some ps => exact arrowTail hg s true ps
      | none => exact hname
  | mark m =>
      cases m with
      | parenOpen =>
          refine ite ((attempt (asyncParameters hg s)).bind fun ps => ?_) hname
          cases ps with
          | some ps => exact arrowTail hg s true ps
          | none => exact hname
      | _ => exact hname
  | _ => exact hname

theorem superclass (hg : Keeps text g) (s : Scope) :
    Parallel text respelled (superclass g s) (superclass g s) := by
  refine (eatWord rfl).bind fun _ => ite ?_ (pure rfl)
  refine (hg _).bind fun t => loop (f := respelled) rfl fun first => ?_
  exact (eatMark _).bind fun _ => ite ((hg _).bind fun _ => pure rfl) (pure rfl)

theorem interfaces (hg : Keeps text g) (s : Scope) {word : String}
    (hword : foreign word.toList = false) :
    Parallel text respelled (interfaces g s word) (interfaces g s word) := by
  refine (eatWord hword).bind fun _ => ite ?_ (pure rfl)
  refine loop (f := List.map respelled) rfl fun acc => (typeReference hg s).bind fun t => ?_
  exact (eatMark _).bind fun _ => ite (pure rfl) (built_reverse rfl (_ :: acc))

theorem atClassName : Parallel text id atClassName atClassName := by
  refine token.bind fun t => followingToken.bind fun u => ?_
  cases t with
  | name w e =>
      by_cases hw : w = "implements"
      · subst hw
        cases u <;> exact pure rfl
      · rw [Token.respelled]
        split
        · simp_all
        · rename_i he _
          cases he
          split
          · simp_all
          · rename_i he _
            cases he
            exact pure rfl
          · simp_all
        · simp_all
  | _ => exact pure rfl

theorem classFrom (hg : Keeps text g) (s : Scope) (ds : Tree) :
    Parallel text respelled (classFrom g s ds) (classFrom g s ds.respelled) := by
  refine (expectWord rfl).bind fun _ => atClassName.bind fun _ => ?_
  refine iteThen (f := respelled) ((variableName s).map fun _ => rfl) (pure rfl) fun name => ?_
  refine (superclass hg s).bind fun _ => (interfaces hg s rfl).bind fun _ => ?_
  exact (expectMark _).bind fun _ => (classMembers hg s).bind fun _ => built rfl _

theorem passAs {form : Form} (h : form.respelled = form) :
    Parallel text respelled (passAs form) (passAs form) :=
  advance.bind fun _ => pure (by simp [h])

theorem primary (hg : Keeps text g) (s : Scope) (mayBeArrow : Bool) :
    Parallel text respelled (primary g s mayBeArrow) (primary g s mayBeArrow) := by
  refine token_bind fun c c' hc => ?_
  have hregex := fun ht => regularExpression hc ht
  have hname : Parallel text respelled ((leaf ∘ Form.identifier) <$> Parser.variableName s)
      ((leaf ∘ Form.identifier) <$> Parser.variableName s) := (variableName s).map fun _ => rfl
  cases ht : c.token with
  | number v => exact passAs rfl c c' hc
  | bigInt d => exact passAs rfl c c' hc
  | string v l raw => exact passAs rfl c c' hc
  | operator op =>
      cases op with
      | div => exact hregex (by simp [ht])
      | _ => exact failure c c' hc
  | assign op =>
      cases op with
      | none => exact failure c c' hc
      | some op => cases op <;> first | exact failure c c' hc | exact hregex (by simp [ht])
  | mark m =>
      refine (?_ : Parallel text respelled _ _) c c' hc
      cases m with
      | backquote => exact template hg s false
      | parenOpen => exact parenthesis hg s mayBeArrow
      | atSign => exact (decorators hg s).bind fun ds => classFrom hg s ds
      | bracketOpen =>
          exact advance.bind fun _ => (arrayItems hg s).bind fun _ => built rfl _
      | braceOpen =>
          refine advance.bind fun _ => (commaSeparated _ (objectProperty hg s)).bind fun _ => ?_
          exact built rfl _
      | _ => exact failure
  | name w e =>
      refine (?_ : Parallel text respelled _ _) c c' hc
      rw [Token.respelled]
      cases e with
      | true => exact hname
      | false =>
          rw [Bool.false_or]
          cases hw : foreign w.toList with
          | false =>
              refine ite (passAs rfl) (ite (passAs rfl) (ite (passAs rfl) (ite (passAs rfl) ?_)))
              refine ite (functionExpression hg false) (ite (classFrom hg s (leaf .decorators)) ?_)
              exact ite (asyncStart hg s mayBeArrow) hname
          | true =>
              have hne : ∀ u : String, foreign u.toList = false → (w == u) = false :=
                fun _ hu => beq_eq_false_of_foreign hu hw
              dsimp only
              rw [hne "this" rfl, hne "null" rfl, hne "true" rfl, hne "false" rfl,
                hne "function" rfl, hne "class" rfl, hne "async" rfl]
              exact hname
  | _ => exact failure c c' hc

theorem optionalLink (hg : Keeps text g) (s : Scope) (e : Tree) :
    Parallel text respelled (optionalLink g s e) (optionalLink g s e.respelled) := by
  have hmember : Parallel text respelled
      (do return node (.member true (← Parser.anyName)) [e])
      (do return node (.member true (← Parser.anyName)) [e.respelled]) :=
    anyName.bind fun _ => pure rfl
  refine token.bind fun t => ?_
  cases t with
  | mark m =>
      cases m with
      | parenOpen =>
          exact advance.bind fun _ => (arguments hg s).bind fun _ => built rfl _
      | bracketOpen =>
          refine advance.bind fun _ => (nestedExpression hg s).bind fun _ => ?_
          exact (expectMark _).bind fun _ => pure rfl
      | _ => exact hmember
  | privateName n => exact advance.bind fun _ => pure rfl
  | _ => exact hmember

theorem chainFrom (hg : Keeps text g) (s : Scope) (isCallee : Bool) (start : Tree) :
    Parallel text respelled (chainFrom g s isCallee start)
      (chainFrom g s isCallee start.respelled) := by
  refine loop (f := Prod.map respelled id) rfl fun z => token.bind fun t => ?_
  obtain ⟨e, isOptional⟩ := z
  have hend : Parallel text (Sum.map (Prod.map respelled (id : Bool → Bool)) respelled)
      (Pure.pure (.inr (if isOptional then node .chain [e] else e)))
      (Pure.pure (.inr (if isOptional then node .chain [e.respelled] else e.respelled))) := by
    cases isOptional <;> exact pure rfl
  cases t with
  | mark m =>
      cases m with
      | dot =>
          refine advance.bind fun _ => token.bind fun t => ?_
          cases t with
          | privateName n => exact advance.bind fun _ => pure rfl
          | _ => exact anyName.bind fun _ => pure rfl
      | bracketOpen =>
          refine ite hend ?_
          refine advance.bind fun _ => (nestedExpression hg s).bind fun _ => ?_
          exact (expectMark _).bind fun _ => pure rfl
      | backquote =>
          exact (require _).bind fun _ => (template hg s true).bind fun _ => pure rfl
      | optionalDot =>
          refine (require _).bind fun _ => advance.bind fun _ => ?_
          exact (optionalLink hg s e).bind fun _ => pure rfl
      | parenOpen =>
          refine ite hend ?_
          refine advance.bind fun _ => (arguments hg s).bind fun _ => pure ?_
          simp [Form.respelled]
      | _ => exact hend
  | _ => exact hend

theorem superStart : Parallel text respelled superStart superStart := by
  refine advance.bind fun _ => token.bind fun t => ?_
  simp only [isMark_respelled]
  exact (require _).bind fun _ => pure rfl

theorem importCall (hg : Keeps text g) (s : Scope) (mode : Option ImportMode) :
    Parallel text respelled (importCall g s mode) (importCall g s mode) := by
  refine (expectMark _).bind fun _ => (commaSeparated _ (hg _)).bind fun args => ?_
  rw [List.length_map]
  exact (require _).bind fun _ => built rfl _

theorem importStart (hg : Keeps text g) (s : Scope) :
    Parallel text respelled (importStart g s) (importStart g s) := by
  refine advance.bind fun _ => (eatMark _).bind fun _ => ite ?_ (importCall hg s _)
  refine (eatWord rfl).bind fun _ => ite (importCall hg s _) ?_
  refine (eatWord rfl).bind fun _ => ite (importCall hg s _) ?_
  exact (expectWord rfl).bind fun _ => pure rfl

theorem construction (hg : Keeps text g) (s : Scope) :
    Parallel text respelled (construction g s) (construction g s) := by
  refine advance.bind fun _ => (eatMark _).bind fun _ => ite ?_ ?_
  · exact (expectWord rfl).bind fun _ => pure rfl
  · refine (hg _).bind fun callee => (atMark _).bind fun _ => (require _).bind fun _ => ?_
    refine (eatMark _).bind fun _ => ?_
    exact iteThen (f := List.map respelled) (arguments hg s) (pure rfl) fun _ =>
      built rfl _

theorem chainStart (hg : Keeps text g) (s : Scope) (mayBeArrow : Bool) :
    Parallel text respelled (chainStart g s mayBeArrow) (chainStart g s mayBeArrow) := by
  refine token.bind fun t => ?_
  rw [isWord_respelled rfl, isWord_respelled rfl, isWord_respelled rfl]
  exact ite (construction hg s) (ite superStart (ite (importStart hg s) (primary hg s mayBeArrow)))

theorem leftHandSide (hg : Keeps text g) (s : Scope) (mayBeArrow : Bool) :
    Parallel text respelled (leftHandSide g s mayBeArrow) (leftHandSide g s mayBeArrow) := by
  refine (chainStart hg s mayBeArrow).bind fun e => ?_
  rw [isArrow_respelled]
  exact ite (pure rfl) (chainFrom hg s false e)

theorem constructed (hg : Keeps text g) (s : Scope) :
    Parallel text respelled (constructed g s) (constructed g s) :=
  (atWord rfl).bind fun _ => (require _).bind fun _ => (chainStart hg s false).bind fun e =>
    chainFrom hg s true e

theorem unary (hg : Keeps text g) (s : Scope) (mayBeArrow : Bool) :
    Parallel text respelled (unary g s mayBeArrow) (unary g s mayBeArrow) := by
  refine token.bind fun t => ?_
  rw [unaryOp?_respelled]
  cases unaryOp? t with
  | some op => exact advance.bind fun _ => (annotatedOperand (hg _)).bind fun _ => pure rfl
  | none =>
      cases t
      case update op =>
        refine advance.bind fun _ => (hg _).bind fun e => ?_
        rw [isPlace_respelled]
        exact (require _).bind fun _ => pure rfl
      all_goals
        dsimp only
        rw [isWord_respelled rfl]
        refine ite (advance.bind fun _ => (hg _).bind fun _ => pure rfl) ?_
        refine (leftHandSide hg s mayBeArrow).bind fun e => token.bind fun t => ?_
        cases t with
        | update op =>
            refine isFresh.bind fun _ => ?_
            rw [isArrow_respelled, isPlace_respelled]
            exact ite (pure rfl) ((require _).bind fun _ => advance.bind fun _ => pure rfl)
        | _ => exact pure rfl

theorem power (hg : Keeps text g) (s : Scope) (mayBeArrow : Bool) :
    Parallel text respelled (power g s mayBeArrow) (power g s mayBeArrow) := by
  refine token.bind fun t => ?_
  cases t
  case privateName n =>
    refine advance.bind fun _ => (require _).bind fun _ => (expectWord rfl).bind fun _ => ?_
    exact (hg _).bind fun _ => pure rfl
  all_goals
    refine (annotatedOperand (unary hg s mayBeArrow)).bind fun base => token.bind fun t => ?_
    rw [isArrow_respelled, respelled_beq rfl, hasUnaryOp_respelled]
    refine ite ((require _).bind fun _ => advance.bind fun _ => ?_) (pure rfl)
    exact (hg _).bind fun _ => pure rfl

theorem binaryOver (hg : Keeps text g) (s : Scope) (mayBeArrow : Bool)
    (groups : List (List BinaryOp)) : Parallel text respelled (binaryOver g s mayBeArrow groups)
      (binaryOver g s mayBeArrow groups) := by
  induction groups generalizing mayBeArrow with
  | nil => exact power hg s mayBeArrow
  | cons ops tighter ih =>
      refine (ih mayBeArrow).bind fun first => ?_
      rw [isArrow_respelled]
      refine ite (pure rfl) (loop (f := respelled) rfl fun left => token.bind fun t => ?_)
      rw [binaryOp?_respelled]
      cases binaryOp? s t with
      | none => exact pure rfl
      | some op =>
          refine ite (advance.bind fun _ => (ih false).bind fun right => ?_) (pure rfl)
          rw [isMixed_respelled, isMixed_respelled]
          exact (require _).bind fun _ => pure rfl

theorem conditional (hg : Keeps text g) (s : Scope) :
    Parallel text respelled (conditional g s) (conditional g s) := by
  refine (binaryOver hg s true _).bind fun test => ?_
  rw [isArrow_respelled]
  refine (both (pure rfl) (eatMark _)).bind fun _ => ite ?_ (pure rfl)
  exact (hg _).bind fun _ => (expectMark _).bind fun _ => (hg _).bind fun _ => pure rfl

theorem yielding (hg : Keeps text g) (s : Scope) :
    Parallel text respelled (yielding g s) (yielding g s) := by
  have hoperand : Parallel text respelled (do return node (.yielding false) [← g (.assignment s)])
      (do return node (.yielding false) [← g (.assignment s)]) := (hg _).bind fun _ => pure rfl
  refine advance.bind fun _ => isFresh.bind fun _ => ite (pure rfl) (token.bind fun t => ?_)
  cases t with
  | operator op =>
      cases op with
      | mul => exact advance.bind fun _ => (hg _).bind fun _ => pure rfl
      | _ => exact hoperand
  | mark m => cases m <;> first | exact pure rfl | exact hoperand
  | finish => exact pure rfl
  | name n e =>
      by_cases hn : n = "in"
      · subst hn
        cases e
        · exact pure rfl
        · exact hoperand
      · rw [Token.respelled]
        split
        case h_9 he => exact absurd (Token.name.inj he).1 hn
        case h_10 =>
          split
          case h_9 he => exact absurd (Token.name.inj he).1 hn
          case h_10 => exact hoperand
          all_goals
            rename_i he
            cases he
        all_goals
          rename_i he
          cases he
  | _ => exact hoperand

theorem assignment (hg : Keeps text g) (s : Scope) :
    Parallel text respelled (assignment g s) (assignment g s) := by
  refine isEffectFree.bind fun isFree => ?_
  have hsaid : ∀ t : Tree,
      (if id isFree = true then markedEffectFree t.respelled else t.respelled) =
        (if isFree = true then markedEffectFree t else t).respelled := fun t => by
    cases isFree
    · rfl
    · exact markedEffectFree_respelled t
  refine (atWord rfl).bind fun _ => ite (yielding hg s) ?_
  refine (conditional hg s).bind fun left => ?_
  rw [isArrow_respelled]
  refine ite (pure (hsaid left)) (token.bind fun t => ?_)
  obtain ⟨f, ps⟩ := left
  cases t with
  | assign op =>
      have htarget : Parallel text respelled _ _ := asPattern true (node f ps)
      cases f
      all_goals
        exact htarget.bind fun _ => advance.bind fun _ => (hg _).bind fun _ => pure rfl
  | mark m =>
      cases m with
      | arrow =>
          cases f with
          | identifier n =>
              exact (arrowTail hg s false (node .parameters [leaf (.identifier n)])).map hsaid
          | _ => exact pure (hsaid _)
      | _ => cases f <;> exact pure (hsaid _)
  | _ => cases f <;> exact pure (hsaid _)

theorem anyExpression (hg : Keeps text g) (s : Scope) :
    Parallel text respelled (anyExpression g s) (anyExpression g s) :=
  (assignment hg s).bind fun e => expression hg s e

end Parallel

end DefineBundle.Script.PlainForm
