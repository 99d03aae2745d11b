import DefineBundle.Script.Tree

/-!
# Calls of `define`

The outermost calls of the name `define` in a script, in source order; what such a call declares;
and the renaming of the module ids in it. A call inside the arguments of another such call is not
outermost and plays no part.
-/
namespace DefineBundle.Script

open DefineBundle.Script.Tree

structure Declaration where
  id : String
  deps : List String
  /-- The number of parameters of the factory; one that takes the rest counts as one. -/
  params : Nat
  deriving DecidableEq, Repr

inductive MalformedDefine
  | noArguments
  | idNotLiteral
  | depsNotArray (id : String)
  | depNotLiteral (id : String)
  | noFactory (id : String)
  deriving DecidableEq, Repr

def MalformedDefine.message : MalformedDefine → String
  | noArguments => "define was called without arguments"
  | idNotLiteral => "the module id passed to define must be a string literal"
  | depsNotArray id => "the dependencies of " ++ id ++ " must be an array literal"
  | depNotLiteral id => "the dependencies of " ++ id ++ " must be string literals"
  | noFactory id => "the module " ++ id ++ " has no factory function"

namespace Tree

mutual

/-- The argument lists of the outermost calls of `define`, in source order. -/
def defineCalls : Tree → List (List Tree)
  | node f ps =>
      match callArguments? "define" (node f ps) with
      | some arguments => [arguments]
      | none => defineCallsAmong ps
termination_by structural t => t

/-- The argument lists of the outermost calls of `define` in any of the trees. -/
def defineCallsAmong : List Tree → List (List Tree)
  | [] => []
  | t :: ts => defineCalls t ++ defineCallsAmong ts
termination_by structural ts => ts

end

def stringValue? : Tree → Option String
  | node (.string v _) _ => some v
  | _ => none

/-- The number of parameters of a function or arrow function. -/
def paramCount? : Tree → Option Nat
  | node (.function _ _ _) [_, node .parameters ps, _] => some ps.length
  | node (.arrow _ _ _) [node .parameters ps, _] => some ps.length
  | _ => none

end Tree

/-- The dependencies written as a list of string literals. -/
def Declaration.deps? (id : String) : Tree → Except MalformedDefine (List String)
  | node .array es =>
      match es.mapM stringValue? with
      | some deps => .ok deps
      | none => .error (.depNotLiteral id)
  | _ => .error (.depsNotArray id)

/-- What a call of `define` with the given arguments declares. -/
def Declaration.ofArguments? : List Tree → Except MalformedDefine Declaration
  | [] => .error .noArguments
  | first :: rest =>
      match first.stringValue? with
      | none => .error .idNotLiteral
      | some id => do
          let deps ← match rest with
            | [] => .error (.depsNotArray id)
            | second :: _ => Declaration.deps? id second
          match rest.drop 1 |>.head?.bind paramCount? with
          | some params => .ok ⟨id, deps, params⟩
          | none => .error (.noFactory id)

/-- What a script declares, in source order, or the fault of its first malformed call. -/
def declarations (t : Tree) : Except MalformedDefine (List Declaration) :=
  t.defineCalls.mapM Declaration.ofArguments?

/-- A string literal that has a name, replaced by that name. -/
def renameLiteral (names : String → Option String) : Tree → Tree
  | node (.string v l) ps =>
      match names v with
      | some n => leaf (.identifier n)
      | none => node (.string v l) ps
  | t => t

/-- The arguments of `define` with the id and the dependencies that have names replaced. -/
def renameArguments (names : String → Option String) : List Tree → List Tree
  | id :: node .array es :: rest =>
      renameLiteral names id :: node .array (es.map (renameLiteral names)) :: rest
  | id :: rest => renameLiteral names id :: rest
  | [] => []

namespace Tree

mutual

/-- The tree with the ids of its outermost calls of `define` renamed. -/
def renameDefines (names : String → Option String) : Tree → Tree
  | node f ps =>
      match ps, callArguments? "define" (node f ps) with
      | callee :: _, some arguments => node f (callee :: renameArguments names arguments)
      | _, _ => node f (renameDefinesAmong names ps)
termination_by structural t => t

/-- The trees with the ids of their outermost calls of `define` renamed. -/
def renameDefinesAmong (names : String → Option String) : List Tree → List Tree
  | [] => []
  | t :: ts => renameDefines names t :: renameDefinesAmong names ts
termination_by structural ts => ts

end

end Tree

end DefineBundle.Script
