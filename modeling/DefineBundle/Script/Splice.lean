import DefineBundle.Script.Tree

/-!
# Splicing statements into a script

The first statement of the shape `marker();` gives its place to other statements. A list of
statements is searched as a whole before the statements in it are searched inside, so a marker of
the outer list wins over one nested before it.
-/
namespace DefineBundle.Script.Tree

/-- Whether a statement is exactly a call of the marker without arguments. -/
def isMarker (marker : String) : Tree → Bool
  | node .expression [call] => (callArguments? marker call).any List.isEmpty
  | _ => false

/-- The list with its first marker replaced, if it has one. -/
def replaceMarker? (marker : String) (statements : List Tree) : List Tree → Option (List Tree)
  | [] => none
  | t :: ts =>
      if isMarker marker t then some (statements ++ ts)
      else (replaceMarker? marker statements ts).map (t :: ·)

/-- Whether all parts of a form are the statements of one list. -/
def holdsStatements : Form → Bool
  | .program _ _ | .body _ | .block | .staticBlock => true
  | _ => false

mutual

/-- The tree with its first marker replaced, if it has one. -/
def splice? (marker : String) (statements : List Tree) : Tree → Option Tree
  | node .switchCase (test :: ts) =>
      match splice? marker statements test with
      | some test => some (node .switchCase (test :: ts))
      | none =>
          (match replaceMarker? marker statements ts with
            | some ts => some ts
            | none => spliceAmong? marker statements ts).map fun ts => node .switchCase (test :: ts)
  | node f ts =>
      (match if holdsStatements f then replaceMarker? marker statements ts else none with
        | some ts => some ts
        | none => spliceAmong? marker statements ts).map (node f)
termination_by structural t => t

/-- The trees with the first marker inside one of them replaced, if there is one. -/
def spliceAmong? (marker : String) (statements : List Tree) : List Tree → Option (List Tree)
  | [] => none
  | t :: ts =>
      match splice? marker statements t with
      | some t => some (t :: ts)
      | none => (spliceAmong? marker statements ts).map (t :: ·)
termination_by structural ts => ts

end

end DefineBundle.Script.Tree
