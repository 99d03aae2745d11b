import DefineBundle.Script.Written.Piece

/-!
# Strength of operators and places of expressions

An operator binds with a strength, and a place asks for at least some strength: an expression that
is weaker is put between parentheses. A place also knows whether a brace or keyword at its very
start would be read as a statement. What the surroundings ban reaches into the bodies of functions
as far as the values of declared variables.
-/
namespace DefineBundle.Script

/-- How strongly the outermost operator of an expression binds, as a number. -/
abbrev Strength := Nat

namespace Strength

abbrev lowest : Strength := 0
abbrev comma : Strength := 1
abbrev yielding : Strength := 3
abbrev assign : Strength := 4
abbrev conditional : Strength := 5
abbrev equality : Strength := 12
abbrev comparison : Strength := 13
abbrev multiply : Strength := 16
abbrev power : Strength := 17
abbrev prefixed : Strength := 18
abbrev postfixed : Strength := 19
abbrev construct : Strength := 20
abbrev call : Strength := 21

end Strength

namespace BinaryOp

def strength : BinaryOp → Strength
  | .coalesce => 6
  | .or => 7
  | .and => 8
  | .bitOr => 9
  | .bitXor => 10
  | .bitAnd => 11
  | .equal | .notEqual | .same | .notSame => 12
  | .less | .lessEqual | .greater | .greaterEqual | .instanceOf | .inside => 13
  | .shiftLeft | .shiftRight | .shiftRightZero => 14
  | .add | .sub => 15
  | .mul | .div | .rem => 16
  | .pow => 17

/-- Whether regrouping operands of the same operator changes nothing. -/
def isLogical : BinaryOp → Bool
  | .coalesce | .or | .and => true
  | _ => false

def text : BinaryOp → String
  | .coalesce => "??"
  | .or => "||"
  | .and => "&&"
  | .bitOr => "|"
  | .bitXor => "^"
  | .bitAnd => "&"
  | .equal => "=="
  | .notEqual => "!="
  | .same => "==="
  | .notSame => "!=="
  | .less => "<"
  | .lessEqual => "<="
  | .greater => ">"
  | .greaterEqual => ">="
  | .instanceOf => "instanceof"
  | .inside => "in"
  | .shiftLeft => "<<"
  | .shiftRight => ">>"
  | .shiftRightZero => ">>>"
  | .add => "+"
  | .sub => "-"
  | .mul => "*"
  | .div => "/"
  | .rem => "%"
  | .pow => "**"

def piece (op : BinaryOp) : Piece :=
  match op with
  | .instanceOf | .inside => .word op.text
  | _ => .sign op.text

/-- What the left operand must bind at least as strongly as, given the operand. The test for a
private name stands there as it is. -/
def leftPlace (op : BinaryOp) (left : Tree) : Strength :=
  match op, left.unparenthesized with
  | _, .node (.privateIn _) _ => Strength.lowest
  | .coalesce, .node (.binary .or) _ => Strength.prefixed
  | .coalesce, .node (.binary .and) _ => Strength.prefixed
  | .pow, .node (.unary _) _ => Strength.call
  | .pow, _ => Strength.power
  | _, _ => op.strength - 1

/-- What the right operand must bind at least as strongly as, given the operand. -/
def rightPlace (op : BinaryOp) (right : Tree) : Strength :=
  match op, right.unparenthesized with
  | .coalesce, .node (.binary .or) _ => Strength.prefixed
  | .coalesce, .node (.binary .and) _ => Strength.prefixed
  | .pow, _ => op.strength - 1
  | _, _ => if op.isLogical then op.strength - 1 else op.strength

end BinaryOp

/-- The spelling of an operator in front of an operand. -/
def UnaryOp.text : UnaryOp → String
  | .minus => "-"
  | .plus => "+"
  | .not => "!"
  | .complement => "~"
  | .typeof => "typeof"
  | .void => "void"
  | .delete => "delete"

/-- The operator with the space that a keyword needs. -/
def UnaryOp.pieces (op : UnaryOp) : List Piece :=
  match op with
  | .typeof | .void | .delete => [.word op.text, .gap]
  | _ => [.sign op.text]

/-- The spelling of an operator that changes a variable. -/
def UpdateOp.text : UpdateOp → String
  | .increment => "++"
  | .decrement => "--"

/-- What the first character of an expression would begin. -/
inductive Start
  | inner | statement | arrowBody | exported
  deriving DecidableEq, Repr

/-- Where a list of statements is printed. -/
structure Level where
  /-- How far lines are indented. -/
  depth : Nat
  /-- Whether the operator `in` would end the head of a loop. -/
  bansIn : Bool
  /-- Whether a call would end the callee of `new`. -/
  bansCall : Bool
  deriving Repr

namespace Level

def plain (depth : Nat) : Level := ⟨depth, false, false⟩

def deeper (l : Level) : Level := { l with depth := l.depth + 1 }

def loopHead (l : Level) : Level := ⟨l.depth, true, false⟩

end Level

/-- Where an expression is printed. -/
structure Place extends Level where
  strength : Strength
  start : Start
  deriving Repr

namespace Place

def inner (strength : Strength) (depth : Nat) : Place := ⟨.plain depth, strength, .inner⟩

/-- The same place for a part that binds at least as strongly as given and does not come first. -/
def later (p : Place) (strength : Strength) : Place := { p with strength, start := .inner }

/-- The place of the first part of an expression in which nothing is banned. -/
def first (p : Place) (strength : Strength) : Place := ⟨.plain p.depth, strength, p.start⟩

def opened (p : Place) (isWrapped : Bool) : Place :=
  if isWrapped then { p with start := .inner } else p

/-- Whether a function or class here would be read as a declaration. -/
def startsDeclaration (p : Place) : Bool :=
  p.start == .statement || p.start == .exported

/-- Whether a brace here would be read as a block. -/
def startsBlock (p : Place) : Bool :=
  p.start == .statement || p.start == .arrowBody

end Place

end DefineBundle.Script
