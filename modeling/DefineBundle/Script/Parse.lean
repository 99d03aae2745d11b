import DefineBundle.Script.Exported
import DefineBundle.Script.Grammar.Statement

/-!
# Scripts

The whole grammar, unfolded as deep as the text is long, and the reading of a script: an optional
first line that starts with `#!`, directives, and statements to the end of the text. A shorthand
property with a default value is only good as part of a pattern, so none may be left over, and no
two things are exported by one name.
-/
namespace DefineBundle.Script

open DefineBundle.Script.Tree

namespace Goal

def rule (g : Grammar) : Goal → Parser Tree
  | .assignment s => Parser.assignment g s
  | .power s => Parser.power g s false
  | .compared s => Parser.binaryOver g s false Parser.operandGroups
  | .unary s => Parser.unary g s false
  | .constructed s => Parser.constructed g s
  | .heritage s => Parser.leftHandSide g s false
  | .binding s => Parser.binding g s
  | .type s => Parser.type g s
  | .statement s isListed => Parser.statement g s isListed

def unfolded : Nat → Grammar
  | 0, _ => failure
  | n + 1, goal => rule (unfolded n) goal

end Goal

/-- The first line if it starts with `#!`, and the characters after it. -/
def hashbang : List Char → Option String × List Char
  | '#' :: '!' :: cs =>
      let line := cs.takeWhile (fun c => !isLineEnd c)
      (some (String.ofList line), cs.drop line.length)
  | cs => (none, cs)

def Parser.statementsToEnd (g : Grammar) : Parser (List Tree) :=
  loop [] fun acc => do
    if (← token) == .finish then pure (.inr acc.reverse)
    else
      let t ← g (.statement Scope.top true)
      pure (.inl (t :: acc))

def Parser.program (g : Grammar) (firstLine : Option String) : Parser Tree := do
  let (ds, first) ← directives g Scope.top
  let rest ← statementsToEnd g
  require (← look fun c => c.openDefaults == 0)
  let t := node (.program firstLine ds) (first ++ rest)
  require (decide t.exportedNames.Nodup)
  pure t

/-- The tree of a script, or nothing when the text is no script. -/
def parse? (source : String) : Option Tree := do
  let cs := source.toList
  let (firstLine, cs) := hashbang cs
  let c ← Parser.start cs
  (Parser.program (Goal.unfolded (Text.PlainAscii.extent cs + 1)) firstLine c).1

/-- The statements of a script, without its first line and its directives. -/
def statements? (source : String) : Option (List Tree) :=
  (parse? source).map Tree.parts

end DefineBundle.Script
