import DefineBundle.Script.Grammar.Cursor

/-!
# Goals of the grammar

The grammar is written as rules that take a reader for nested goals. A nested goal is entered only
after a token has been passed, so a chain of nested goals is no longer than the text, and the whole
reader is obtained by unfolding the rules that many times. Texts are measured in their plain form,
so that a text and its plain form are read by the same reader.
-/
namespace DefineBundle.Script

/-- What surrounds a piece of code, as far as the grammar depends on it. -/
structure Scope where
  /-- Whether the operator `in` may appear outside brackets. -/
  allowsIn : Bool
  inAsync : Bool
  inGenerator : Bool
  inFunction : Bool
  /-- Whether a bracket would end the expression of a decorator. -/
  inDecorator : Bool
  deriving Repr

namespace Scope

def top : Scope := ⟨true, false, false, false, false⟩

def bracketed (s : Scope) : Scope := { s with allowsIn := true, inDecorator := false }

def loopHead (s : Scope) : Scope := { s with allowsIn := false }

/-- The scope of a function of the given kind. -/
def function (isAsync isGenerator : Bool) : Scope := ⟨true, isAsync, isGenerator, true, false⟩

/-- The scope of the body of an arrow function. In the head of a loop it stays without the operator
`in`. -/
def arrowBody (s : Scope) (isAsync : Bool) : Scope :=
  ⟨s.allowsIn, isAsync, false, true, false⟩

/-- The scope of a static block, which stays without the operator `in` in the head of a loop. -/
def staticBlock (s : Scope) : Scope := ⟨s.allowsIn, true, false, false, false⟩

end Scope

/-- A part of the grammar that other parts contain. -/
inductive Goal
  | assignment (scope : Scope)
  | power (scope : Scope)
  /-- An operand of a comparison. -/
  | compared (scope : Scope)
  | unary (scope : Scope)
  /-- The callee of `new`. -/
  | constructed (scope : Scope)
  /-- The superclass of a class, or a decorator. -/
  | heritage (scope : Scope)
  /-- A name or pattern that is declared. -/
  | binding (scope : Scope)
  | type (scope : Scope)
  /-- `isListed` in a list of statements, otherwise as the body of another statement. -/
  | statement (scope : Scope) (isListed : Bool)

/-- A reader for nested goals. -/
abbrev Grammar := Goal → Parser Tree

def reservedWords : List String :=
  ["break", "case", "catch", "class", "const", "continue", "debugger", "default", "delete", "do",
    "else", "enum", "export", "extends", "false", "finally", "for", "function", "if", "import",
    "in", "instanceof", "new", "null", "return", "super", "switch", "this", "throw", "true", "try",
    "typeof", "var", "void", "while", "with"]

def Scope.admits (s : Scope) (word : String) : Bool :=
  !reservedWords.contains word && !(s.inGenerator && word == "yield") &&
    !(s.inAsync && word == "await")

namespace Parser

open DefineBundle.Script.Tree

def variableName (s : Scope) : Parser String := do
  match ← token with
  | .name n _ =>
      require (s.admits n)
      advance
      pure n
  | _ => failure

def anyName : Parser String := do
  match ← token with
  | .name n _ =>
      advance
      pure n
  | _ => failure

def propertyKey (g : Grammar) (s : Scope) : Parser Tree := do
  match ← token with
  | .name n _ =>
      advance
      pure (leaf (.keyName n))
  | .string v l _ =>
      advance
      pure (leaf (.string v l))
  | .number v =>
      advance
      pure (leaf (.number v))
  | .bigInt d =>
      advance
      pure (leaf (.bigInt d))
  | .mark .bracketOpen =>
      advance
      let key ← g (.assignment s.bracketed)
      expectMark .bracketClose
      pure (node .computedKey [key])
  | _ => failure

end Parser

end DefineBundle.Script
