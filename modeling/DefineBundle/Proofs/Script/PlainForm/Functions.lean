import DefineBundle.Proofs.Script.PlainForm.Patterns

/-!
# Functions and classes in plain form

The readers of parameters, bodies and the members of objects and classes read the same in plain
form.
-/
namespace DefineBundle.Script.PlainForm

open DefineBundle.Script.Parser DefineBundle.Script.Tree

theorem isEmpty_parts_respelled (t : Tree) : t.respelled.parts.isEmpty = t.parts.isEmpty := by
  obtain ⟨f, ps⟩ := t
  cases ps <;> rfl

theorem decorated_respelled (ds t : Tree) :
    decorated ds.respelled t.respelled = (decorated ds t).respelled := by
  unfold decorated
  rw [isEmpty_parts_respelled]
  split
  · rfl
  · rfl

theorem directive?_respelled (t : Token) (e : Tree) :
    directive? t.respelled e.respelled = (directive? t e).map respell := by
  cases t with
  | string v l raw =>
      obtain ⟨f, ps⟩ := e
      cases f with
      | expression =>
          match ps with
          | [node f qs] | node f qs :: _ :: _ => cases f <;> rfl
          | [] => rfl
      | _ => rfl
  | _ => rfl

theorem startsKey_respelled (t : Token) : startsKey t.respelled = startsKey t := by
  cases t <;> rfl

theorem isKey_respelled (word : String) (t : Tree) : isKey word t.respelled = isKey word t := by
  obtain ⟨f, ps⟩ := t
  cases f <;> rfl

namespace Parallel

variable {text : List Char} {g : Grammar}

theorem decorators (hg : Keeps text g) (s : Scope) :
    Parallel text respelled (decorators g s) (decorators g s) := by
  refine loop (f := List.map respelled) rfl fun acc => (eatMark _).bind fun _ => ite ?_ ?_
  · exact (hg _).bind fun e => pure rfl
  · exact built_reverse rfl acc

theorem parameterList (hg : Keeps text g) (s : Scope) :
    Parallel text (List.map respelled) (parameterList g s) (parameterList g s) := by
  refine loop (f := List.map respelled) rfl fun acc => ?_
  refine (eatMark _).bind fun _ => ite (pure_reverse acc) ?_
  refine (decorators hg s).bind fun ds => (eatMark _).bind fun _ => ite ?_ ?_
  · refine (restElement hg s).bind fun t => (expectMark _).bind fun _ => ?_
    rw [decorated_respelled]
    exact pure_reverse (decorated ds t :: acc)
  · refine ((bindingElement hg s).map (decorated_respelled ds)).bind fun t => ?_
    refine (eatMark _).bind fun _ => ite (pure rfl) ?_
    exact (expectMark _).bind fun _ => pure_reverse (t :: acc)

theorem parameters (hg : Keeps text g) (s : Scope) :
    Parallel text respelled (parameters g s) (parameters g s) :=
  (expectMark _).bind fun _ => (parameterList hg s).bind fun _ => built rfl _

theorem statementsToBrace (hg : Keeps text g) (s : Scope) :
    Parallel text (List.map respelled) (statementsToBrace g s) (statementsToBrace g s) := by
  refine loop (f := List.map respelled) rfl fun acc => ?_
  refine (eatMark _).bind fun _ => ite (pure_reverse acc) ?_
  exact (hg _).bind fun t => pure rfl

theorem directives (hg : Keeps text g) (s : Scope) :
    Parallel text (Prod.map (List.map respell) (List.map respelled)) (directives g s)
      (directives g s) := by
  refine loop (f := List.map respell) rfl fun acc => token.bind fun t => ?_
  cases t with
  | string v l raw =>
      refine (hg _).bind fun t => ?_
      rw [directive?_respelled]
      cases directive? (.string v l raw) t with
      | some raw => exact pure rfl
      | none => exact pure (by simp)
  | _ => exact pure (by simp)

theorem functionBody (hg : Keeps text g) (s : Scope) :
    Parallel text respelled (functionBody g s) (functionBody g s) := by
  refine (expectMark _).bind fun _ => (directives hg s).bind fun z => ?_
  obtain ⟨ds, first⟩ := z
  exact (statementsToBrace hg s).bind fun rest => pure (by simp [Form.respelled])

theorem functionTail (hg : Keeps text g) (isAsync isGenerator : Bool) (name : Tree) :
    Parallel text respelled (functionTail g isAsync isGenerator name)
      (functionTail g isAsync isGenerator name.respelled) :=
  (parameters hg _).bind fun _ => (functionBody hg _).bind fun _ => pure rfl

theorem functionExpression (hg : Keeps text g) (isAsync : Bool) :
    Parallel text respelled (functionExpression g isAsync) (functionExpression g isAsync) := by
  refine (expectWord rfl).bind fun _ => token.bind fun t => ?_
  rw [respelled_beq rfl]
  refine advanceIf (token.bind fun t => ?_)
  cases t with
  | name n e =>
      exact Parallel.bind (f := respelled) ((variableName _).map fun _ => rfl) fun name =>
        functionTail hg _ _ name
  | _ => exact functionTail hg _ _ missing

theorem functionStart : Parallel text id functionStart functionStart := by
  refine token.bind fun t => ?_
  rw [isWord_respelled rfl, isWord_respelled rfl]
  refine ite (pure rfl) (ite (following_bind fun n n' hn => ?_) (pure rfl))
  cases hn with
  | none => exact failure
  | some hn =>
      refine pure ?_
      rw [hn.token, hn.gap, isWord_respelled rfl]
      rfl

theorem functionDeclaration (hg : Keeps text g) (s : Scope) (isAsync isListed : Bool) :
    Parallel text respelled (functionDeclaration g s isAsync isListed)
      (functionDeclaration g s isAsync isListed) := by
  refine (expectWord rfl).bind fun _ => token.bind fun t => ?_
  rw [respelled_beq rfl]
  refine advanceIf ((variableName _).bind fun name => (require _).bind fun _ => ?_)
  exact functionTail hg _ _ (leaf (.identifier name))

theorem arrowBody (hg : Keeps text g) (s : Scope) (isAsync : Bool) (ps : Tree) :
    Parallel text respelled (arrowBody g s isAsync ps) (arrowBody g s isAsync ps.respelled) :=
  (atMark _).bind fun _ => ite ((functionBody hg _).bind fun _ => pure rfl)
    ((hg _).bind fun _ => pure rfl)

theorem arrowTail (hg : Keeps text g) (s : Scope) (isAsync : Bool) (ps : Tree) :
    Parallel text respelled (arrowTail g s isAsync ps) (arrowTail g s isAsync ps.respelled) :=
  isFresh.bind fun _ => (require _).bind fun _ => (expectMark _).bind fun _ =>
    arrowBody hg s isAsync ps

theorem methodStart : Parallel text id methodStart methodStart := by
  have hpassed : ∀ m : MethodStart, Parallel text id (do Parser.advance; Pure.pure m)
      (do Parser.advance; Pure.pure m) := fun _ => advance.bind fun _ => pure rfl
  refine following_bind fun n n' hn => ?_
  -- the token that follows is asked for before the word that it follows
  cases hn with
  | none =>
      refine token.bind fun t => ?_
      rw [isWord_respelled rfl, isWord_respelled rfl, isWord_respelled rfl, respelled_beq rfl]
      refine ite (hpassed _) (ite (hpassed _) (ite ?_ (ite (hpassed _) (pure rfl))))
      refine advance.bind fun _ => token.bind fun t => ?_
      rw [respelled_beq rfl]
      exact advanceIf (pure rfl)
  | some hn =>
      dsimp only
      rw [hn.token, hn.gap, startsKey_respelled, respelled_beq rfl]
      refine token.bind fun t => ?_
      rw [isWord_respelled rfl, isWord_respelled rfl, isWord_respelled rfl, respelled_beq rfl]
      refine ite (hpassed _) (ite (hpassed _) (ite ?_ (ite (hpassed _) (pure rfl))))
      refine advance.bind fun _ => token.bind fun t => ?_
      rw [respelled_beq rfl]
      exact advanceIf (pure rfl)

theorem methodFunction (hg : Keeps text g) (m : MethodStart) :
    Parallel text respelled (methodFunction g m) (methodFunction g m) :=
  functionTail hg _ _ missing

theorem objectProperty (hg : Keeps text g) (s : Scope) :
    Parallel text respelled (objectProperty g s) (objectProperty g s) := by
  refine (eatMark _).bind fun _ => ite (spread hg s) ?_
  refine methodStart.bind fun m => token.bind fun word => (propertyKey hg s).bind fun key => ?_
  refine (atMark _).bind fun _ => ite ((methodFunction hg m).bind fun _ => pure rfl) ?_
  refine (eatMark _).bind fun _ => ite ((hg _).bind fun _ => pure rfl) ?_
  cases word with
  | name n e =>
      refine (require _).bind fun _ => token.bind fun t => ?_
      rw [respelled_beq rfl]
      refine ite ?_ (pure rfl)
      exact advance.bind fun _ => openDefault.bind fun _ => (hg _).bind fun _ => pure rfl
  | _ => exact failure

theorem memberKey (hg : Keeps text g) (s : Scope) :
    Parallel text respelled (memberKey g s) (memberKey g s) := by
  refine token.bind fun t => ?_
  cases t with
  | privateName n => exact (require _).bind fun _ => advance.bind fun _ => pure rfl
  | _ => exact propertyKey hg s

theorem memberMark : Parallel text id memberMark memberMark := by
  refine (eatMark _).bind fun _ => ite (pure rfl) ?_
  exact (eatToken rfl).bind fun _ => ite (pure rfl) (pure rfl)

theorem isMemberWord_moved {n n' : Cursor} (h : Matches text n n') (word : String) :
    isMemberWord word n' = isMemberWord word n := by
  unfold isMemberWord
  rw [h.token, h.gap, startsKey_respelled, isMark_respelled, respelled_beq rfl]

theorem isMemberWord_foreign {word : String} (h : foreign word.toList = true) (n : Cursor) :
    isMemberWord word n = false := by
  have hplain : ∀ w ∈ memberWordOrder, foreign w.toList = false := by decide
  rw [isMemberWord, contains_eq_false hplain h, Bool.false_and, Bool.false_and]

theorem memberWords : Parallel text id memberWords memberWords := by
  refine Parallel.bind (f := id) ?_ fun _ => (require _).bind fun _ => pure rfl
  refine loop (f := id) rfl fun words => token.bind fun t => following_bind fun n n' hn => ?_
  cases t with
  | name w e =>
      cases hn with
      | none =>
          rw [Token.respelled]
          cases e <;> cases foreign w.toList <;> exact pure rfl
      | some hn =>
          cases e with
          | true => exact pure rfl
          | false =>
              rw [Token.respelled]
              cases hw : foreign w.toList with
              | false =>
                  dsimp only
                  rw [← isMemberWord_moved hn]
                  exact ite (advance.bind fun _ => pure rfl) (pure rfl)
              | true =>
                  dsimp only
                  rw [isMemberWord_foreign hw]
                  exact pure rfl
  | _ => exact pure rfl

theorem fieldValue (hg : Keeps text g) :
    Parallel text respelled (fieldValue g) (fieldValue g) :=
  (eatToken rfl).bind fun _ => iteThen (f := respelled) (hg _) (pure rfl) fun _ =>
    endStatement.bind fun _ => pure rfl

theorem classMember (hg : Keeps text g) (s : Scope) (ds : Tree) (words : List String) :
    Parallel text respelled (classMember g s ds words)
      (classMember g s ds.respelled words) := by
  refine iteThen (f := id) (pure rfl) methodStart fun m => (memberKey hg s).bind fun key => ?_
  simp only [isKey_respelled]
  refine (require _).bind fun _ => memberMark.bind fun mark => (atMark _).bind fun _ => ite ?_ ?_
  · refine (require _).bind fun _ => (require _).bind fun _ => ?_
    exact (methodFunction hg m).bind fun _ => pure rfl
  · exact (require _).bind fun _ => (fieldValue hg).bind fun _ => pure rfl

theorem classMembers (hg : Keeps text g) (s : Scope) :
    Parallel text (List.map respelled) (classMembers g s) (classMembers g s) := by
  refine loop (f := List.map respelled) rfl fun acc => ?_
  refine (eatMark _).bind fun _ => ite (pure_reverse acc) ?_
  refine (eatMark _).bind fun _ => ite (pure rfl) ?_
  refine (decorators hg s).bind fun ds => memberWords.bind fun words => ?_
  rw [isEmpty_parts_respelled]
  refine (both (pure rfl) (eatMark _)).bind fun _ =>
    ite ?_ ((classMember hg s ds words).bind fun _ => pure rfl)
  refine (require _).bind fun _ => (statementsToBrace hg _).bind fun body => pure ?_
  simp [Form.respelled]

end Parallel

end DefineBundle.Script.PlainForm
