import DefineBundle.Proofs.Script.PlainForm.Readers

/-!
# Patterns in plain form

The readers of names, keys and patterns, and the turning of expressions into patterns, read the same
in plain form when the readers of nested goals do.
-/
namespace DefineBundle.Script.PlainForm

open DefineBundle.Script.Parser DefineBundle.Script.Tree

/-- The readers of nested goals read the same in plain form. -/
def Keeps (text : List Char) (g : Grammar) : Prop :=
  ∀ goal, Parallel text respelled (g goal) (g goal)

theorem unparenthesized_respelled (t : Tree) :
    t.respelled.unparenthesized = t.unparenthesized.respelled := by
  cases t with
  | node f ps =>
      cases f with
      | parens =>
          rcases ps with _ | ⟨t, _ | ⟨_, _⟩⟩
          · rfl
          · exact unparenthesized_respelled t
          · rfl
      | _ => rfl
termination_by structural t

theorem isPlace_respelled (t : Tree) : isPlace t.respelled = isPlace t := by
  cases t with
  | node f ps =>
      cases f with
      | parens =>
          rcases ps with _ | ⟨t, _ | ⟨_, _⟩⟩
          · rfl
          · exact isPlace_respelled t
          · rfl
      | member b | privateMember b | index b => cases b <;> rfl
      | _ => rfl
termination_by structural t

theorem exists_default_of_respelled {ps : List Tree} {key t v : Tree}
    (h : ps.map respelled = [key, node (.assign none) [t, v]]) :
    ∃ key t v, ps = [key, node (.assign none) [t, v]] := by
  match ps with
  | [] | [_] | _ :: _ :: _ :: _ => simp at h
  | [key, node f qs] =>
      simp only [List.map_cons, List.map_nil, respelled_node, List.cons.injEq, node.injEq,
        and_true] at h
      obtain ⟨-, hf, hqs⟩ := h
      obtain rfl : f = .assign none := by
        cases f <;> first | exact hf | cases hf
      match qs with
      | [] | [_] | _ :: _ :: _ :: _ => simp at hqs
      | [t, v] => exact ⟨key, t, v, rfl⟩

namespace Parallel

variable {text : List Char} {g : Grammar}

theorem variableName (s : Scope) : Parallel text id (variableName s) (variableName s) := by
  refine token.bind fun t => ?_
  cases t with
  | name n e => exact (require _).bind fun _ => advance.bind fun _ => pure rfl
  | _ => exact failure

theorem anyName : Parallel text id anyName anyName := by
  refine token.bind fun t => ?_
  cases t with
  | name n e => exact advance.bind fun _ => pure rfl
  | _ => exact failure

theorem propertyKey (hg : Keeps text g) (s : Scope) :
    Parallel text respelled (propertyKey g s) (propertyKey g s) := by
  refine token.bind fun t => ?_
  cases t with
  | name n e => exact advance.bind fun _ => pure rfl
  | string v l raw => exact advance.bind fun _ => pure rfl
  | number v => exact advance.bind fun _ => pure rfl
  | bigInt d => exact advance.bind fun _ => pure rfl
  | mark m =>
      cases m with
      | bracketOpen =>
          exact advance.bind fun _ => (hg _).bind fun key => (expectMark _).bind fun _ => pure rfl
      | _ => exact failure
  | _ => exact failure

theorem bindingElement (hg : Keeps text g) (s : Scope) :
    Parallel text respelled (bindingElement g s) (bindingElement g s) := by
  refine (hg _).bind fun target => token.bind fun t => ?_
  rw [respelled_beq rfl]
  exact ite (advance.bind fun _ => (hg _).bind fun value => pure rfl) (pure rfl)

theorem restElement (hg : Keeps text g) (s : Scope) :
    Parallel text respelled (restElement g s) (restElement g s) :=
  (hg _).bind fun _ => pure rfl

theorem spread (hg : Keeps text g) (s : Scope) :
    Parallel text respelled (spread g s) (spread g s) :=
  (hg _).bind fun _ => (atMark _).bind fun _ => pure rfl

theorem built {f : Form} (hf : f.respelled = f) (ps : List Tree) :
    Parallel text respelled (Pure.pure (node f ps)) (Pure.pure (node f (ps.map respelled))) :=
  pure (by rw [respelled_node, hf])

theorem built_append {f : Form} (hf : f.respelled = f) (ps qs : List Tree) :
    Parallel text respelled (Pure.pure (node f (ps ++ qs)))
      (Pure.pure (node f (ps.map respelled ++ qs.map respelled))) :=
  pure (by rw [respelled_node, hf, List.map_append])

theorem built_reverse {α : Type} {m : α → α} {f : Form} (hf : f.respelled = f) (ts : List Tree) :
    Parallel text (Sum.map m respelled) (Pure.pure (.inr (node f ts.reverse)))
      (Pure.pure (.inr (node f (ts.map respelled).reverse))) :=
  pure (congrArg Sum.inr (by rw [respelled_node, hf, List.map_reverse]))

theorem pure_reverse {α : Type} {f : List Tree → α} (ts : List Tree) :
    Parallel text (Sum.map f (List.map respelled)) (Pure.pure (.inr ts.reverse))
      (Pure.pure (.inr (ts.map respelled).reverse)) :=
  pure (congrArg Sum.inr List.map_reverse.symm)

theorem arrayElements (hg : Keeps text g) (s : Scope) :
    Parallel text (List.map respelled) (arrayElements g s) (arrayElements g s) := by
  refine loop (f := List.map respelled) rfl fun acc => ?_
  refine (eatMark _).bind fun _ => ite (pure_reverse acc) ?_
  refine (eatMark _).bind fun _ => ite (pure rfl) ?_
  refine (eatMark _).bind fun _ => ite ?_ ?_
  · exact (restElement hg s).bind fun t => (expectMark _).bind fun _ => pure_reverse (t :: acc)
  · refine (bindingElement hg s).bind fun t => (eatMark _).bind fun _ => ite (pure rfl) ?_
    exact (expectMark _).bind fun _ => pure_reverse (t :: acc)

theorem patternProperty (hg : Keeps text g) (s : Scope) :
    Parallel text respelled (patternProperty g s) (patternProperty g s) := by
  refine token.bind fun word => (propertyKey hg s).bind fun key => ?_
  refine (eatMark _).bind fun _ => ite ?_ ?_
  · exact (bindingElement hg s).bind fun value => pure rfl
  · cases word with
    | name n e =>
        refine (require _).bind fun _ => token.bind fun t => ?_
        rw [respelled_beq rfl]
        exact ite (advance.bind fun _ => (hg _).bind fun value => pure rfl) (pure rfl)
    | _ => exact failure

theorem patternProperties (hg : Keeps text g) (s : Scope) :
    Parallel text (List.map respelled) (patternProperties g s) (patternProperties g s) := by
  refine loop (f := List.map respelled) rfl fun acc => ?_
  refine (eatMark _).bind fun _ => ite (pure_reverse acc) ?_
  refine (eatMark _).bind fun _ => ite ?_ ?_
  · refine (variableName s).bind fun n => (expectMark _).bind fun _ => ?_
    exact pure_reverse (node .rest [leaf (.identifier n)] :: acc)
  · refine (patternProperty hg s).bind fun t => (eatMark _).bind fun _ => ite (pure rfl) ?_
    exact (expectMark _).bind fun _ => pure_reverse (t :: acc)

theorem binding (hg : Keeps text g) (s : Scope) :
    Parallel text respelled (binding g s) (binding g s) := by
  refine token.bind fun t => ?_
  have hname : Parallel text respelled
      (do Pure.pure (leaf (.identifier (← Parser.variableName s))))
      (do Pure.pure (leaf (.identifier (← Parser.variableName s)))) :=
    (variableName s).bind fun _ => pure rfl
  cases t with
  | mark m =>
      cases m with
      | bracketOpen =>
          exact advance.bind fun _ => (arrayElements hg s).bind fun ts => built rfl _
      | braceOpen =>
          exact advance.bind fun _ => (patternProperties hg s).bind fun ts => built rfl _
      | _ => exact hname
  | _ => exact hname

theorem closeDefault : Parallel text id closeDefault closeDefault :=
  fun _ _ hc => ⟨rfl, { hc with openDefaults := congrArg (· - 1) hc.openDefaults }⟩

theorem openDefault : Parallel text id openDefault openDefault :=
  fun _ _ hc => ⟨rfl, { hc with openDefaults := congrArg (· + 1) hc.openDefaults }⟩

theorem place (isTarget : Bool) (t : Tree) : Parallel text respelled
    (do
      Parser.require (isTarget && isPlace t)
      Pure.pure t.unparenthesized)
    (do
      Parser.require (isTarget && isPlace t.respelled)
      Pure.pure t.respelled.unparenthesized) := by
  rw [isPlace_respelled]
  exact (require _).bind fun _ => pure (unparenthesized_respelled t)

theorem asProperties_shorthand (isTarget : Bool) {ps : List Tree} {ts : List Tree}
    (h : ∀ key t v, ps ≠ [key, node (.assign none) [t, v]]) :
    Parser.asProperties isTarget (node (.property .shorthand) ps :: ts) =
      (do return node (.property .shorthand) ps :: (← Parser.asProperties isTarget ts)) := by
  rw [Parser.asProperties]
  exact h

mutual

theorem asPattern (isTarget : Bool) (t : Tree) :
    Parallel text respelled (asPattern isTarget t) (asPattern isTarget t.respelled) := by
  cases t with
  | node f ps =>
      have hplace : Parallel text _ _ _ := place isTarget (node f ps)
      cases f with
      | identifier n => exact pure rfl
      | array =>
          rw [respelled_node]
          exact (asElements isTarget ps).bind fun qs => built rfl _
      | object =>
          rw [respelled_node]
          exact (asProperties isTarget ps).bind fun qs => built rfl _
      | arrayPattern b =>
          cases b with
          | false => exact hplace
          | true =>
              rw [respelled_node]
              exact (asElements isTarget ps).bind fun qs => built rfl _
      | objectPattern b =>
          cases b with
          | false => exact hplace
          | true =>
              rw [respelled_node]
              exact (asProperties isTarget ps).bind fun qs => built rfl _
      | _ => exact hplace
termination_by structural t

theorem asElement (isTarget : Bool) (t : Tree) :
    Parallel text respelled (asElement isTarget t) (asElement isTarget t.respelled) := by
  cases t with
  | node f ps =>
      have hplace : Parallel text _ _ _ := place isTarget (node f ps)
      cases f with
      | assign op =>
          match op, ps with
          | none, [t, v] => exact (asPattern isTarget t).bind fun _ => pure rfl
          | none, [] | none, [_] | none, _ :: _ :: _ :: _ | some _, _ => exact hplace
      | withDefault =>
          match ps with
          | [t, v] => exact (asPattern isTarget t).bind fun _ => pure rfl
          | [] | [_] | _ :: _ :: _ :: _ => exact hplace
      | identifier n => exact pure rfl
      | array =>
          rw [respelled_node]
          exact (asElements isTarget ps).bind fun qs => built rfl _
      | object =>
          rw [respelled_node]
          exact (asProperties isTarget ps).bind fun qs => built rfl _
      | arrayPattern b =>
          cases b with
          | false => exact hplace
          | true =>
              rw [respelled_node]
              exact (asElements isTarget ps).bind fun qs => built rfl _
      | objectPattern b =>
          cases b with
          | false => exact hplace
          | true =>
              rw [respelled_node]
              exact (asProperties isTarget ps).bind fun qs => built rfl _
      | _ => exact hplace
termination_by structural t

theorem asElements (isTarget : Bool) (ts : List Tree) :
    Parallel text (List.map respelled) (asElements isTarget ts)
      (asElements isTarget (ts.map respelled)) := by
  cases ts with
  | nil => exact pure rfl
  | cons t ts =>
      have hcons : Parallel text (List.map respelled)
          (do return (← Parser.asElement isTarget t) :: (← Parser.asElements isTarget ts))
          (do return (← Parser.asElement isTarget t.respelled) ::
            (← Parser.asElements isTarget (ts.map respelled))) :=
        (asElement isTarget t).bind fun _ => (asElements isTarget ts).bind fun _ => pure rfl
      cases t with
      | node f ps =>
          cases f with
          | hole =>
             cases ts with
             | nil => exact (asElements isTarget []).bind fun es => pure rfl
             | cons u us => exact (asElements isTarget (u :: us)).bind fun es => pure rfl
          | rest =>
              match ps, ts with
              | [t], [] => exact (asPattern isTarget t).bind fun _ => pure rfl
              | [], _ | _ :: _ :: _, _ | [_], _ :: _ => exact hcons
          | spread b =>
              match b, ps, ts with
              | false, [t], [] => exact (asPattern isTarget t).bind fun _ => pure rfl
              | true, _, _ | false, [], _ | false, _ :: _ :: _, _ | false, [_], _ :: _ =>
                  exact hcons
          | _ => exact hcons
termination_by structural ts

theorem asProperties (isTarget : Bool) (ts : List Tree) :
    Parallel text (List.map respelled) (asProperties isTarget ts)
      (asProperties isTarget (ts.map respelled)) := by
  cases ts with
  | nil => exact pure rfl
  | cons t ts =>
      cases t with
      | node f ps =>
          cases f with
          | rest =>
              match ps, ts with
              | [t], [] =>
                  rw [List.map_cons, respelled_node]
                  refine Parallel.bind (f := id) ?_ fun _ =>
                    (asPattern isTarget t).bind fun _ => pure rfl
                  rw [isPlace_respelled]
                  exact require _
              | [], _ | _ :: _ :: _, _ | [_], _ :: _ => exact failure
          | spread isFollowed =>
              match ps, ts with
              | [t], [] =>
                  rw [List.map_cons, respelled_node]
                  refine Parallel.bind (f := id) ?_ fun _ =>
                    (asPattern isTarget t).bind fun _ => pure rfl
                  rw [isPlace_respelled]
                  exact require _
              | [], _ | _ :: _ :: _, _ | [_], _ :: _ => exact failure
          | property kind =>
              cases kind with
              | plain =>
                  match ps with
                  | [key, v] =>
                      exact (asElement isTarget v).bind fun _ =>
                        (asProperties isTarget ts).bind fun _ => pure rfl
                  | [] | [_] | _ :: _ :: _ :: _ => exact failure
              | shorthand =>
                  have hplain : Parallel text (List.map respelled)
                      (do return node (.property .shorthand) ps ::
                        (← Parser.asProperties isTarget ts))
                      (do return node (.property .shorthand) (ps.map respelled) ::
                        (← Parser.asProperties isTarget (ts.map respelled))) :=
                    (asProperties isTarget ts).bind fun _ => pure (by simp [Form.respelled])
                  by_cases h : ∃ key t v, ps = [key, node (.assign none) [t, v]]
                  · obtain ⟨key, t, v, rfl⟩ := h
                    exact closeDefault.bind fun _ =>
                      (asProperties isTarget ts).bind fun _ => pure rfl
                  · rw [List.map_cons, respelled_node]
                    show Parallel text _ _ (Parser.asProperties isTarget
                      (node (.property .shorthand) (ps.map respelled) :: ts.map respelled))
                    rw [asProperties_shorthand isTarget fun key t v he => h ⟨key, t, v, he⟩,
                      asProperties_shorthand isTarget fun _ _ _ he =>
                        h (exists_default_of_respelled he)]
                    exact hplain
              | _ => exact failure
          | _ => exact failure
termination_by structural ts

end

theorem asParameterList (ts : List Tree) :
    Parallel text (List.map respelled) (asParameterList ts)
      (asParameterList (ts.map respelled)) := by
  induction ts with
  | nil => exact pure rfl
  | cons t ts ih =>
      have hcons : Parallel text (List.map respelled)
          (do return (← Parser.asElement false t) :: (← Parser.asParameterList ts))
          (do return (← Parser.asElement false t.respelled) ::
            (← Parser.asParameterList (ts.map respelled))) :=
        (asElement false t).bind fun _ => ih.bind fun _ => pure rfl
      cases t with
      | node f ps =>
          cases f with
          | rest =>
              match ps with
              | [t] => exact ih.bind fun _ => pure rfl
              | [] | _ :: _ :: _ => exact hcons
          | _ => exact hcons

theorem asParameters (ts : List Tree) :
    Parallel text respelled (asParameters ts) (asParameters (ts.map respelled)) :=
  (asParameterList ts).bind fun _ => built rfl _

end Parallel

end DefineBundle.Script.PlainForm
