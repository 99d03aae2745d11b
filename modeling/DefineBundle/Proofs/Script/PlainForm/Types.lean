import DefineBundle.Proofs.Script.PlainForm.Functions

/-!
# Types in plain form

A closing angle bracket may be the first of several, and what is behind it is read anew: it stands
in the plain form where it stands in the text.
-/
namespace DefineBundle.Script.PlainForm

open DefineBundle.Script.Parser DefineBundle.Script.Tree
open DefineBundle.Text DefineBundle.Text.PlainAscii

theorem startsType_respelled (t : Token) : startsType t.respelled = startsType t := by
  cases t <;> rfl

theorem worded_respelled (words : List String) (t : Tree) :
    words.foldl (fun t w => node (.typeOperator w) [t]) t.respelled =
      (words.foldl (fun t w => node (.typeOperator w) [t]) t).respelled := by
  induction words generalizing t with
  | nil => rfl
  | cons w words ih => exact ih (node (.typeOperator w) [t])

namespace Parallel

variable {text : List Char} {g : Grammar}

theorem dottedName : Parallel text id dottedName dottedName :=
  anyName.bind fun _ => loop (f := id) rfl fun _ => (eatMark _).bind fun _ =>
    ite (anyName.bind fun _ => pure rfl) (pure rfl)

theorem closeAngle : Parallel text id closeAngle closeAngle := by
  refine look_bind fun c c' hc => ?_
  have hbehind := hc.behind
  rw [hc.here]
  cases hcs : c.here with
  | nil => exact pure rfl
  | cons d ds =>
      by_cases hd : d = '>'
      · subst hd
        rw [hcs] at hbehind
        rw [plain_cons (by decide)]
        have hds := hbehind.trans (behind_of_cons (by decide) Behind.refl hbehind.steady)
        exact (resume hds).bind fun _ => pure rfl
      · obtain ⟨e, es, hplain, he⟩ := exists_plain_cons d ds
        have hne : e ≠ '>' := by
          rcases he with ⟨-, rfl, -⟩ | ⟨-, rfl⟩
          · exact hd
          · decide
        rw [hplain]
        split
        · rename_i he
          exact absurd (List.cons.inj he).1 hd
        · split
          · rename_i he
            exact absurd (List.cons.inj he).1 hne
          · exact pure rfl

theorem angled {item : Parser Tree} (h : Parallel text respelled item item) :
    Parallel text (List.map respelled) (angled item) (angled item) := by
  refine (eatToken rfl).bind fun _ => ite ?_ (pure rfl)
  refine loop (f := List.map respelled) rfl fun acc => ?_
  refine closeAngle.bind fun _ => ite (pure_reverse acc) (h.bind fun t => ?_)
  refine (eatMark _).bind fun _ => ite (pure rfl) ?_
  exact closeAngle.bind fun _ => (require _).bind fun _ => pure_reverse (t :: acc)

theorem typeReference (hg : Keeps text g) (s : Scope) :
    Parallel text respelled (typeReference g s) (typeReference g s) :=
  dottedName.bind fun _ => (angled (hg _)).bind fun _ => built rfl _

theorem typeBehind (hg : Keeps text g) (s : Scope) (isThere : Bool) :
    Parallel text respelled (typeBehind g s isThere) (typeBehind g s isThere) :=
  ite (hg _) (pure rfl)

theorem functionType (hg : Keeps text g) (s : Scope) (isConstructor : Bool) :
    Parallel text respelled (functionType g s isConstructor) (functionType g s isConstructor) :=
  (parameters hg s).bind fun _ => (expectMark _).bind fun _ => (hg _).bind fun _ => pure rfl

theorem methodType (hg : Keeps text g) (s : Scope) (kind : MethodKind) (isOptional : Bool)
    (key : Tree) : Parallel text respelled (methodType g s kind isOptional key)
      (methodType g s kind isOptional key.respelled) :=
  (parameters hg s).bind fun _ => (eatMark _).bind fun _ =>
    (typeBehind hg s _).bind fun _ => pure rfl

theorem signatureWords : Parallel text id signatureWords signatureWords := by
  refine (atWord rfl).bind fun _ => followingToken.bind fun t => ?_
  rw [startsKey_respelled]
  exact advanceIf (methodStart.bind fun _ => (require _).bind fun _ => pure rfl)

theorem atIndexType : Parallel text id atIndexType atIndexType := by
  refine (atMark _).bind fun _ => ite (look fun c c' hc => ?_) (pure rfl)
  have hmoved := relation_moved hc.toAccords hc.behindRest false
  rw [hc.rest]
  generalize moved c false c.rest = x at hmoved
  generalize moved c' false (plain c.rest) = y at hmoved
  cases hmoved with
  | none => rfl
  | some hn =>
      rename_i n n'
      have hagain := relation_moved hn.toAccords hn.behindRest false
      rw [Option.bind_some, Option.bind_some, hn.token]
      cases n.token with
      | name w e =>
          rw [hn.rest]
          dsimp only [Token.respelled]
          generalize moved n false n.rest = x at hagain
          generalize moved n' false (plain n.rest) = y at hagain
          cases hagain with
          | none => rfl
          | some hm =>
              rw [Option.map_some, hm.token, isMark_respelled]
              rfl
      | _ => rfl

theorem typeMember (hg : Keeps text g) (s : Scope) :
    Parallel text respelled (typeMember g s) (typeMember g s) := by
  refine (atMark _).bind fun _ => ite (methodType hg s _ _ missing) ?_
  refine (atWord rfl).bind fun _ => followingToken.bind fun t => ?_
  rw [isMark_respelled]
  refine ite (advance.bind fun _ => methodType hg s _ _ missing) ?_
  refine signatureWords.bind fun words => atIndexType.bind fun _ => ite ?_ ?_
  · refine advance.bind fun _ => anyName.bind fun _ => (expectMark _).bind fun _ => ?_
    refine (hg _).bind fun _ => (expectMark _).bind fun _ => (expectMark _).bind fun _ => ?_
    exact (hg _).bind fun _ => pure rfl
  · refine (propertyKey hg s).bind fun key => (eatMark _).bind fun _ => ?_
    refine (atMark _).bind fun _ => ite (methodType hg s _ _ key) ?_
    exact (eatMark _).bind fun _ => (typeBehind hg s _).bind fun _ => pure rfl

theorem objectType (hg : Keeps text g) (s : Scope) :
    Parallel text respelled (objectType g s) (objectType g s) := by
  refine (expectMark _).bind fun _ => loop (f := List.map respelled) rfl fun acc => ?_
  refine (eatMark _).bind fun _ => ite (built_reverse rfl acc) ?_
  refine (typeMember hg s).bind fun t => (eatMark _).bind fun _ => ite (pure rfl) ?_
  exact endStatement.bind fun _ => pure rfl

theorem tupleElement (hg : Keeps text g) (s : Scope) :
    Parallel text respelled (tupleElement g s) (tupleElement g s) := by
  have htype : Parallel text respelled
      (do let t ← g (.type s)
          if ← Parser.eatMark .question then Pure.pure (node (.tupleElement none true) [t])
          else Pure.pure t)
      (do let t ← g (.type s)
          if ← Parser.eatMark .question then Pure.pure (node (.tupleElement none true) [t])
          else Pure.pure t) :=
    (hg _).bind fun t => (eatMark _).bind fun _ => ite (pure rfl) (pure rfl)
  refine (eatMark _).bind fun _ => ite ((hg _).bind fun _ => pure rfl) ?_
  refine token.bind fun t => followingToken.bind fun u => ?_
  cases t with
  | name n e =>
      cases u with
      | mark m =>
          cases m with
          | colon =>
              exact advance.bind fun _ => advance.bind fun _ => (hg _).bind fun _ => pure rfl
          | _ => exact htype
      | _ => exact htype
  | _ => exact htype

theorem groupedType (hg : Keeps text g) (s : Scope) :
    Parallel text respelled (groupedType g s) (groupedType g s) := by
  refine (attempt (functionType hg s false)).bind fun t => ?_
  cases t with
  | some t => exact pure rfl
  | none =>
      exact (expectMark _).bind fun _ => (hg _).bind fun _ => (expectMark _).bind fun _ => pure rfl

theorem primaryType (hg : Keeps text g) (s : Scope) :
    Parallel text respelled (primaryType g s) (primaryType g s) := by
  refine token.bind fun t => ?_
  have hliteral : Parallel text respelled (do return node .literalType [← g (.unary s)])
      (do return node .literalType [← g (.unary s)]) :=
    (hg _).bind fun _ => pure rfl
  cases t with
  | mark m =>
      cases m with
      | parenOpen => exact groupedType hg s
      | braceOpen => exact objectType hg s
      | bracketOpen =>
          refine advance.bind fun _ => (commaSeparated _ (tupleElement hg s)).bind fun ts => ?_
          exact built rfl _
      | backquote => exact hliteral
      | _ => exact typeReference hg s
  | operator op => cases op with
      | sub => exact hliteral
      | _ => exact typeReference hg s
  | number | string | bigInt => exact hliteral
  | _ => exact typeReference hg s

theorem bracketedType (hg : Keeps text g) (s : Scope) :
    Parallel text respelled (bracketedType g s) (bracketedType g s) := by
  refine (primaryType hg s).bind fun t => loop (f := respelled) rfl fun t => ?_
  refine (both isOnLine (eatMark _)).bind fun _ => ite ?_ (pure rfl)
  refine (eatMark _).bind fun _ => ite (pure rfl) ?_
  exact (hg _).bind fun _ => (expectMark _).bind fun _ => pure rfl

theorem wordedType (hg : Keeps text g) (s : Scope) :
    Parallel text respelled (wordedType g s) (wordedType g s) := by
  refine Parallel.bind (f := id) ?_ fun words => (bracketedType hg s).bind fun t =>
    pure (worded_respelled words t)
  refine loop (f := id) rfl fun acc => token.bind fun t => followingToken.bind fun u => ?_
  cases t with
  | name n e =>
      cases e with
      | true => exact pure rfl
      | false =>
          rw [Token.respelled, Bool.false_or]
          cases hn : foreign n.toList with
          | false =>
              dsimp only
              rw [startsType_respelled]
              exact ite (advance.bind fun _ => pure rfl) (pure rfl)
          | true =>
              dsimp only
              rw [contains_eq_false (by decide) hn]
              exact pure rfl
  | _ => exact pure rfl

theorem joinedType (isAll : Bool) (sign : BinaryOp) {item : Parser Tree}
    (h : Parallel text respelled item item) :
    Parallel text respelled (joinedType isAll sign item) (joinedType isAll sign item) := by
  refine (eatToken rfl).bind fun _ => h.bind fun t => ?_
  refine loop (f := List.map respelled) rfl fun acc => ?_
  refine (eatToken rfl).bind fun _ => ite (h.bind fun _ => pure rfl) ?_
  match acc with
  | [t] => exact ite (pure rfl) (pure rfl)
  | [] => exact pure rfl
  | _ :: _ :: _ => exact built_reverse rfl _

theorem type (hg : Keeps text g) (s : Scope) :
    Parallel text respelled (type g s) (type g s) := by
  refine (atWord rfl).bind fun _ => followingToken.bind fun t => ?_
  rw [isMark_respelled]
  refine ite (advance.bind fun _ => functionType hg s true) ?_
  refine (joinedType _ _ (joinedType _ _ (wordedType hg s))).bind fun t => ?_
  refine (both isOnLine (eatWord rfl)).bind fun _ => ite ?_ (pure rfl)
  refine (hg _).bind fun _ => (expectMark _).bind fun _ => (hg _).bind fun _ => ?_
  exact (expectMark _).bind fun _ => (hg _).bind fun _ => pure rfl

end Parallel

end DefineBundle.Script.PlainForm
