import DefineBundle.Proofs.Script.PlainForm.Modules

/-!
# Statements in plain form

A statement is found by its first word, which counts only without escapes. A word that is not plain
begins an expression in the text and in its plain form.
-/
namespace DefineBundle.Script.PlainForm

open DefineBundle.Script.Parser DefineBundle.Script.Tree

theorem lacksValue_respelled (kind : BindingKind) (t : Tree) :
    lacksValue kind t.respelled = lacksValue kind t := by
  obtain ⟨f, ps⟩ := t
  cases f with
  | declarator =>
      match ps with
      | [node f _] | node f _ :: _ :: _ => cases f <;> rfl
      | [] => rfl
  | _ => rfl

theorem isNamed_respelled (t : Tree) : isNamed t.respelled = isNamed t := by
  obtain ⟨f, ps⟩ := t
  cases f with
  | declarator =>
      match ps with
      | [] => rfl
      | node f _ :: _ => cases f <;> rfl
  | _ => rfl

theorem isMissing_respelled (t : Tree) : t.respelled.isMissing = t.isMissing := by
  obtain ⟨f, ps⟩ := t
  cases f <;> rfl

theorem markedStatement_respelled (t : Tree) :
    markedStatement t.respelled = (markedStatement t).respelled := by
  cases t with
  | node f ps =>
      cases f with
      | declaration kind =>
          cases kind with
          | constant =>
              rcases ps with _ | ⟨⟨f, qs⟩, ds⟩
              · rfl
              · cases f with
                | declarator =>
                    rcases qs with _ | ⟨target, _ | ⟨value, _ | ⟨_, _⟩⟩⟩
                    · rfl
                    · rfl
                    · show node (.declaration .constant) (node .declarator
                          [target.respelled, markedEffectFree value.respelled] ::
                          respelledAll ds) =
                        node (.declaration .constant) (node .declarator
                          [target.respelled, (markedEffectFree value).respelled] ::
                          respelledAll ds)
                      rw [markedEffectFree_respelled]
                    · rfl
                | _ => rfl
          | _ => rfl
      | exportDeclaration =>
          rcases ps with _ | ⟨t, _ | ⟨_, _⟩⟩
          · rfl
          · show node .exportDeclaration [markedStatement t.respelled] =
              node .exportDeclaration [(markedStatement t).respelled]
            rw [markedStatement_respelled t]
          · rfl
      | exportDefault =>
          rcases ps with _ | ⟨⟨f, _⟩, _ | ⟨_, _⟩⟩
          · rfl
          · cases f <;> rfl
          · cases f <;> rfl
      | _ => rfl
termination_by structural t

theorem continuesOperand_name (w : String) (e e' : Bool) :
    continuesOperand (.name w e') = continuesOperand (.name w e) := by
  unfold continuesOperand
  split <;> split <;> simp_all

theorem continuesOperand_respelled (t : Token) :
    continuesOperand t.respelled = continuesOperand t := by
  cases t with
  | name w e => exact continuesOperand_name w e _
  | _ => rfl

theorem startsDeclarator_respelled (isListed : Bool) (t : Token) :
    startsDeclarator isListed t.respelled = startsDeclarator isListed t := by
  unfold startsDeclarator
  rw [continuesOperand_respelled]
  simp only [isMark_respelled]

theorem startsLoopDeclarator_respelled (t : Token) :
    startsLoopDeclarator t.respelled = startsLoopDeclarator t := by
  cases t <;> rfl

section Resources

variable {text : List Char} {c c' : Cursor}

theorem namesResource_moved (inLoop : Bool) (h : Matches text c c') :
    namesResource inLoop c' = namesResource inLoop c := by
  unfold namesResource
  rw [h.token, h.gap]
  cases c.token <;> rfl

theorem startsResource_moved (inLoop : Bool) (h : Matches text c c') :
    startsResource inLoop c' = startsResource inLoop c := by
  unfold startsResource
  have hmoved := relation_moved h.toAccords h.behindRest false
  rw [h.token, h.rest, isWord_respelled rfl]
  generalize moved c false c.rest = x at hmoved
  generalize moved c' false (plain c.rest) = y at hmoved
  cases hmoved with
  | none => rfl
  | some hd => rw [Option.map_some, Option.map_some, namesResource_moved inLoop hd]

end Resources

theorem any_lacksValue_respelled (kind : BindingKind) (ts : List Tree) :
    (ts.map respelled).any (lacksValue kind) = ts.any (lacksValue kind) := by
  simp only [List.any_map, Function.comp_def, lacksValue_respelled]

theorem all_isNamed_respelled (ts : List Tree) :
    (ts.map respelled).all isNamed = ts.all isNamed := by
  simp only [List.all_map, Function.comp_def, isNamed_respelled]

namespace Parallel

variable {text : List Char} {g : Grammar}

theorem inParentheses (hg : Keeps text g) (s : Scope) :
    Parallel text respelled (inParentheses g s) (inParentheses g s) :=
  (expectMark _).bind fun _ => (anyExpression hg s).bind fun _ =>
    (expectMark _).bind fun _ => pure rfl

theorem bodyOf (hg : Keeps text g) (s : Scope) :
    Parallel text respelled (bodyOf g s) (bodyOf g s) :=
  hg _

theorem block (hg : Keeps text g) (s : Scope) :
    Parallel text respelled (block g s) (block g s) :=
  (expectMark _).bind fun _ => (statementsToBrace hg s).bind fun _ => built rfl _

theorem declarators (hg : Keeps text g) (s : Scope) :
    Parallel text (List.map respelled) (declarators g s) (declarators g s) := by
  refine loop (f := List.map respelled) rfl fun acc => (hg _).bind fun target => ?_
  refine token.bind fun t => ?_
  rw [respelled_beq rfl]
  have hmore : ∀ t : Tree, Parallel text (Sum.map (List.map respelled) (List.map respelled))
      (do if ← Parser.eatMark .comma then Pure.pure (.inl (t :: acc))
          else Pure.pure (.inr (t :: acc).reverse))
      (do if ← Parser.eatMark .comma then Pure.pure (.inl (t.respelled :: acc.map respelled))
          else Pure.pure (.inr (t.respelled :: acc.map respelled).reverse)) :=
    fun t => (eatMark _).bind fun _ => ite (pure rfl) (pure_reverse (t :: acc))
  refine ite ?_ ((pure rfl).bind hmore)
  exact advance.bind fun _ => (hg _).bind fun _ => (pure rfl).bind hmore

theorem declarationStart (inLoop : Bool) {startsAfterLet : Token → Bool}
    (h : ∀ t : Token, startsAfterLet t.respelled = startsAfterLet t) :
    Parallel text id (declarationStart inLoop startsAfterLet)
      (declarationStart inLoop startsAfterLet) := by
  refine fun c c' hc => get_bind ((?_ : Parallel text id _ _) c c' hc)
  have hkind : ∀ kind : Option BindingKind, Parallel text id
      (do
        if kind.isSome then Parser.advance
        if kind == some .asyncResource then Parser.advance
        Pure.pure kind)
      (do
        if kind.isSome then Parser.advance
        if kind == some .asyncResource then Parser.advance
        Pure.pure kind) := fun kind => advanceIf (advanceIf (pure rfl))
  rw [hc.token, isWord_respelled rfl, isWord_respelled rfl, isWord_respelled rfl,
    isWord_respelled rfl, startsResource_moved inLoop hc]
  refine ite (hkind (some .var)) (ite (hkind (some .constant)) (ite ?_ ?_))
  · refine followingToken.bind fun t => ?_
    rw [h]
    exact hkind (if startsAfterLet t then some .mutable else none)
  refine ite (hkind (some .resource)) (ite (following_bind fun n n' hn => ?_) (hkind none))
  cases hn with
  | none => exact hkind none
  | some hn =>
      dsimp only
      rw [startsResource_moved inLoop hn, hn.gap]
      exact hkind (if startsResource inLoop _ && !(Cursor.gap _).isFresh then some .asyncResource
        else none)

theorem forRest (hg : Keeps text g) (s : Scope) (start : Tree) :
    Parallel text respelled (forRest g s start) (forRest g s start.respelled) := by
  refine (expectMark _).bind fun _ => (atMark _).bind fun _ => ?_
  refine iteThen (f := respelled) (pure rfl) (anyExpression hg _) fun test => ?_
  refine (expectMark _).bind fun _ => (atMark _).bind fun _ => ?_
  refine iteThen (f := respelled) (pure rfl) (anyExpression hg _) fun update => ?_
  exact (expectMark _).bind fun _ => (bodyOf hg s).bind fun _ => pure rfl

theorem forInRest (hg : Keeps text g) (s : Scope) (left : Tree) :
    Parallel text respelled (forInRest g s left) (forInRest g s left.respelled) :=
  (expectWord rfl).bind fun _ => (anyExpression hg s).bind fun _ => (expectMark _).bind fun _ =>
    (bodyOf hg s).bind fun _ => pure rfl

theorem forOfRest (hg : Keeps text g) (s : Scope) (isAwait : Bool) (left : Tree) :
    Parallel text respelled (forOfRest g s isAwait left)
      (forOfRest g s isAwait left.respelled) :=
  (expectWord rfl).bind fun _ => (hg _).bind fun _ => (expectMark _).bind fun _ =>
    (bodyOf hg s).bind fun _ => pure rfl

theorem forDeclared (hg : Keeps text g) (s : Scope) (isAwait : Bool) (kind : BindingKind)
    (ds : List Tree) : Parallel text respelled (forDeclared g s isAwait kind ds)
      (forDeclared g s isAwait kind (ds.map respelled)) := by
  have hleft : (node (.declaration kind) ds).respelled =
      node (.declaration kind) (ds.map respelled) := respelled_node _ _
  unfold Parser.forDeclared
  dsimp only
  rw [all_isNamed_respelled, any_lacksValue_respelled, ← hleft]
  refine (require _).bind fun _ => (atWord rfl).bind fun _ => ite (forOfRest hg s isAwait _) ?_
  refine (require _).bind fun _ => (atWord rfl).bind fun _ => ite ?_ ?_
  · exact (require _).bind fun _ => forInRest hg s _
  · exact (require _).bind fun _ => forRest hg s _

theorem forStatement (hg : Keeps text g) (s : Scope) :
    Parallel text respelled (forStatement g s) (forStatement g s) := by
  refine advance.bind fun _ => ?_
  refine iteThen (f := id) (eatWord rfl) (pure rfl) fun isAwait => (expectMark _).bind fun _ => ?_
  refine (atMark _).bind fun _ => ite (forRest hg s missing) ?_
  refine (declarationStart true startsLoopDeclarator_respelled).bind fun kind => ?_
  cases kind with
  | some kind => exact (declarators hg _).bind fun ds => forDeclared hg s isAwait kind ds
  | none =>
      refine (atWord rfl).bind fun _ => followingToken.bind fun t => ?_
      dsimp only
      rw [isWord_respelled rfl]
      refine (anyExpression hg _).bind fun e => (atWord rfl).bind fun _ => ite ?_ ?_
      · exact (require _).bind fun _ => (asPattern true e).bind fun t => forOfRest hg s isAwait t
      · refine (require _).bind fun _ => (atWord rfl).bind fun _ => ite ?_ (forRest hg s e)
        exact (asPattern true e).bind fun t => forInRest hg s t

theorem ifStatement (hg : Keeps text g) (s : Scope) :
    Parallel text respelled (ifStatement g s) (ifStatement g s) :=
  advance.bind fun _ => (inParentheses hg s).bind fun _ => (bodyOf hg s).bind fun _ =>
    (eatWord rfl).bind fun _ => ite ((bodyOf hg s).bind fun _ => pure rfl) (pure rfl)

theorem caseStatements (hg : Keeps text g) (s : Scope) :
    Parallel text (List.map respelled) (caseStatements g s) (caseStatements g s) := by
  refine loop (f := List.map respelled) rfl fun acc => (atMark _).bind fun _ => ?_
  refine (atWord rfl).bind fun _ => (atWord rfl).bind fun _ => ite (pure_reverse acc) ?_
  exact (hg _).bind fun _ => pure rfl

theorem switchCases (hg : Keeps text g) (s : Scope) :
    Parallel text (List.map respelled) (switchCases g s) (switchCases g s) := by
  refine loop (f := List.map respelled) rfl fun acc => (eatMark _).bind fun _ => ?_
  refine ite (pure_reverse acc) ((eatWord rfl).bind fun _ => ?_)
  have hbody : ∀ test : Tree, Parallel text (Sum.map (List.map respelled) (List.map respelled))
      (do
        Parser.expectMark .colon
        let body ← Parser.caseStatements g s
        Pure.pure (.inl (node .switchCase (test :: body) :: acc)))
      (do
        Parser.expectMark .colon
        let body ← Parser.caseStatements g s
        Pure.pure (.inl (node .switchCase (test.respelled :: body) :: acc.map respelled))) :=
    fun test => (expectMark _).bind fun _ => (caseStatements hg s).bind fun _ =>
      pure (by simp [Form.respelled])
  refine ite ((anyExpression hg s).bind hbody) ((expectWord rfl).bind fun _ => ?_)
  exact (pure rfl).bind hbody

theorem catchClause (hg : Keeps text g) (s : Scope) :
    Parallel text respelled (catchClause g s) (catchClause g s) := by
  have hbody : ∀ pattern : Tree, Parallel text respelled
      (do return node .catchClause [pattern, ← Parser.block g s])
      (do return node .catchClause [pattern.respelled, ← Parser.block g s]) :=
    fun _ => (block hg s).bind fun _ => pure rfl
  refine (eatMark _).bind fun _ => ite ((hg _).bind fun t => ?_) ((pure rfl).bind hbody)
  exact (expectMark _).bind fun _ => (pure rfl).bind hbody

theorem tryStatement (hg : Keeps text g) (s : Scope) :
    Parallel text respelled (tryStatement g s) (tryStatement g s) := by
  refine advance.bind fun _ => (block hg s).bind fun body => (eatWord rfl).bind fun _ => ?_
  refine iteThen (f := respelled) (catchClause hg s) (pure rfl) fun handler => ?_
  refine (eatWord rfl).bind fun _ => ?_
  refine iteThen (f := respelled) (block hg s) (pure rfl) fun last => ?_
  dsimp only
  rw [isMissing_respelled, isMissing_respelled]
  exact (require _).bind fun _ => pure rfl

theorem jumpLabel (s : Scope) : Parallel text id (jumpLabel s) (jumpLabel s) := by
  refine token.bind fun t => ?_
  cases t with
  | name w e => exact isFresh.bind fun _ => ite (pure rfl) ((variableName s).map fun _ => rfl)
  | _ => exact pure rfl

theorem expressionStatement (hg : Keeps text g) (s : Scope) :
    Parallel text respelled (expressionStatement g s) (expressionStatement g s) := by
  refine (anyExpression hg s).bind fun e => ?_
  have hend : Parallel text respelled
      (do Parser.endStatement; Pure.pure (node .expression [e]))
      (do Parser.endStatement; Pure.pure (node .expression [e.respelled])) :=
    endStatement.bind fun _ => pure rfl
  obtain ⟨f, ps⟩ := e
  cases f with
  | identifier n =>
      exact (eatMark _).bind fun _ => ite ((bodyOf hg s).bind fun _ => pure rfl) hend
  | _ => exact hend

theorem letStatement (hg : Keeps text g) (s : Scope) :
    Parallel text respelled (letStatement g s) (letStatement g s) := by
  refine followingToken.bind fun t => ?_
  rw [isMark_respelled, isMark_respelled, continuesOperand_respelled]
  refine ite ((anyExpression hg s).bind fun _ => pure rfl) ?_
  exact iteThen (f := respelled) (assignment hg s) (passAs rfl) fun _ =>
    endStatement.bind fun _ => pure rfl

theorem importIsExpression : Parallel text id importIsExpression importIsExpression := by
  refine following_bind fun n n' hn => ?_
  cases hn with
  | none => exact failure
  | some hn =>
      refine pure ?_
      rw [hn.token, isMark_respelled, isMark_respelled]
      rfl

theorem keywordStatement (hg : Keeps text g) (s : Scope) (isListed : Bool) (word : String) :
    Parallel text respelled (keywordStatement g s isListed word)
      (keywordStatement g s isListed word) := by
  unfold Parser.keywordStatement
  split
  · exact ifStatement hg s
  · exact forStatement hg s
  · refine advance.bind fun _ => (inParentheses hg s).bind fun _ => ?_
    exact (bodyOf hg s).bind fun _ => pure rfl
  · refine advance.bind fun _ => (bodyOf hg s).bind fun _ => (expectWord rfl).bind fun _ => ?_
    exact (inParentheses hg s).bind fun _ => (eatMark _).bind fun _ => pure rfl
  · refine advance.bind fun _ => (inParentheses hg s).bind fun _ => (expectMark _).bind fun _ => ?_
    exact (switchCases hg s).bind fun _ => built rfl _
  · exact tryStatement hg s
  · refine advance.bind fun _ => isFresh.bind fun _ => (require _).bind fun _ => ?_
    exact (anyExpression hg s).bind fun _ => endStatement.bind fun _ => pure rfl
  · refine (require _).bind fun _ => advance.bind fun _ => token.bind fun t => ?_
    refine isFresh.bind fun _ => ?_
    rw [isMark_respelled, isMark_respelled, respelled_beq rfl]
    refine ite (endStatement.bind fun _ => pure rfl) ?_
    exact (anyExpression hg _).bind fun _ => endStatement.bind fun _ => pure rfl
  · exact advance.bind fun _ => (jumpLabel s).bind fun _ => endStatement.bind fun _ => pure rfl
  · exact advance.bind fun _ => (jumpLabel s).bind fun _ => endStatement.bind fun _ => pure rfl
  · refine advance.bind fun _ => (inParentheses hg s).bind fun _ => ?_
    exact (bodyOf hg s).bind fun _ => pure rfl
  · exact advance.bind fun _ => endStatement.bind fun _ => pure rfl
  · exact (require _).bind fun _ => classFrom hg s (leaf .decorators)
  · exact letStatement hg s
  · exact importIsExpression.bind fun _ => ite (expressionStatement hg s) (importStatement s)
  · exact exportStatement hg s (leaf .decorators)
  · exact expressionStatement hg s

theorem keywordStatement_foreign {word : String} (hword : foreign word.toList = true) (s : Scope)
    (isListed : Bool) :
    Parser.keywordStatement g s isListed word = Parser.expressionStatement g s := by
  unfold Parser.keywordStatement
  split
  case h_17 => rfl
  all_goals cases hword

theorem decoratedStatement (hg : Keeps text g) (s : Scope) :
    Parallel text respelled (decoratedStatement g s) (decoratedStatement g s) :=
  (decorators hg s).bind fun ds => (atWord rfl).bind fun _ =>
    ite (exportStatement hg s ds) (classFrom hg s ds)

theorem plainStatement (hg : Keeps text g) (s : Scope) (isListed : Bool) :
    Parallel text respelled (plainStatement g s isListed) (plainStatement g s isListed) := by
  refine (declarationStart false (startsDeclarator_respelled isListed)).bind fun kind => ?_
  cases kind with
  | some kind =>
      refine (require _).bind fun _ => (declarators hg s).bind fun ds => ?_
      rw [any_lacksValue_respelled, all_isNamed_respelled]
      exact (require _).bind fun _ => endStatement.bind fun _ => built rfl _
  | none =>
      refine functionStart.bind fun isAsync => ?_
      cases isAsync with
      | some isAsync => exact advanceIf (functionDeclaration hg s isAsync isListed)
      | none =>
          refine token.bind fun t => ?_
          cases t with
          | mark m =>
              cases m with
              | braceOpen => exact block hg s
              | semicolon => exact advance.bind fun _ => pure rfl
              | atSign => exact (require _).bind fun _ => decoratedStatement hg s
              | _ => exact expressionStatement hg s
          | name word e =>
              rw [Token.respelled]
              cases e with
              | true => exact expressionStatement hg s
              | false =>
                  cases hword : foreign word.toList with
                  | false => exact keywordStatement hg s isListed word
                  | true =>
                      dsimp only
                      rw [keywordStatement_foreign hword]
                      exact expressionStatement hg s
          | _ => exact expressionStatement hg s

theorem statement (hg : Keeps text g) (s : Scope) (isListed : Bool) :
    Parallel text respelled (statement g s isListed) (statement g s isListed) := by
  refine isEffectFree.bind fun isFree => (plainStatement hg s isListed).bind fun t => pure ?_
  cases isFree
  · rfl
  · exact markedStatement_respelled t

end Parallel

end DefineBundle.Script.PlainForm
