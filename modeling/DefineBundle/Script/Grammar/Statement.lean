import DefineBundle.Script.Grammar.Module

/-!
# Statements

Declarations and control flow. Inside a loop head the operator `in` may be missing from statements
as well: the body of an arrow function there has statements, but does not bring the operator back.
-/
namespace DefineBundle.Script.Parser

open DefineBundle.Script.Tree

/-- An expression between parentheses that are part of a statement. -/
def inParentheses (g : Grammar) (s : Scope) : Parser Tree := do
  expectMark .parenOpen
  let e ← anyExpression g s
  expectMark .parenClose
  pure e

def bodyOf (g : Grammar) (s : Scope) : Parser Tree :=
  g (.statement s false)

def block (g : Grammar) (s : Scope) : Parser Tree := do
  expectMark .braceOpen
  return node .block (← statementsToBrace g s)

def isResource (kind : BindingKind) : Bool :=
  kind == .resource || kind == .asyncResource

/-- Whether a declarator lacks a value that it needs: only a plain name that is not constant may go
without one. -/
def lacksValue (kind : BindingKind) : Tree → Bool
  | node .declarator [node (.identifier _) _] => kind == .constant || isResource kind
  | node .declarator [_] => true
  | _ => false

/-- Whether a declarator has a name, and not a pattern. -/
def isNamed : Tree → Bool
  | node .declarator (node (.identifier _) _ :: _) => true
  | _ => false

def declarators (g : Grammar) (s : Scope) : Parser (List Tree) :=
  loop [] fun acc => do
    let target ← g (.binding s)
    let t ←
      if (← token) == .assign none then
        advance
        let value ← g (.assignment s)
        pure (node .declarator [target, value])
      else pure (node .declarator [target])
    if ← eatMark .comma then pure (.inl (t :: acc))
    else pure (.inr (t :: acc).reverse)

/-- Whether a token goes on with an expression of which one operand was read. Operators that may
skip their second operand do not count. -/
def continuesOperand : Token → Bool
  | .assign _ | .name "in" _ | .name "instanceof" _ => true
  | .operator op => !(op == .coalesce || op == .or || op == .and)
  | _ => false

/-- Whether the word `let` starts a declaration before the given token. In the body of another
statement it does so before a bracket only. -/
def startsDeclarator (isListed : Bool) (next : Token) : Bool :=
  next.isMark .bracketOpen || (isListed && !(continuesOperand next || next.isMark .dot ||
    next.isMark .parenOpen || next.isMark .semicolon))

/-- Whether the word `let` starts a declaration before the given token in the head of a loop. -/
def startsLoopDeclarator : Token → Bool
  | .name w _ => w != "in"
  | next => next.isMark .bracketOpen || next.isMark .braceOpen

/-- Whether the name of a resource stands here, on the line of the word before it. The head of a
loop may go on with the word `of` instead. -/
def namesResource (inLoop : Bool) (c : Cursor) : Bool :=
  match c.token with
  | .name w _ => !c.gap.isFresh && !reservedWords.contains w && !(inLoop && w == "of")
  | _ => false

/-- Whether the word `using` stands here before the name of a resource. -/
def startsResource (inLoop : Bool) (c : Cursor) : Bool :=
  c.token.isWord "using" && ((moved c false c.rest).map (namesResource inLoop)).getD false

/-- The kind of declaration that starts here, whose words are passed, if one does; with a test of
the token after the word `let`. -/
def declarationStart (inLoop : Bool) (startsAfterLet : Token → Bool) :
    Parser (Option BindingKind) := do
  let c ← get
  let kind ←
    if c.token.isWord "var" then pure (some .var)
    else if c.token.isWord "const" then pure (some .constant)
    else if c.token.isWord "let" then
      pure (if startsAfterLet (← followingToken) then some .mutable else none)
    else if startsResource inLoop c then pure (some .resource)
    else if c.token.isWord "await" then
      match ← following with
      | some n =>
          pure (if startsResource inLoop n && !n.gap.isFresh then some .asyncResource else none)
      | none => pure none
    else pure none
  if kind.isSome then advance
  if kind == some .asyncResource then advance
  pure kind

/-- The test, update and body of a loop after its start. -/
def forRest (g : Grammar) (s : Scope) (start : Tree) : Parser Tree := do
  expectMark .semicolon
  let test ← if ← atMark .semicolon then pure missing else anyExpression g s.bracketed
  expectMark .semicolon
  let update ← if ← atMark .parenClose then pure missing else anyExpression g s.bracketed
  expectMark .parenClose
  let body ← bodyOf g s
  pure (node .forLoop [start, test, update, body])

/-- The object of a loop over keys and its body. -/
def forInRest (g : Grammar) (s : Scope) (left : Tree) : Parser Tree := do
  expectWord "in"
  let object ← anyExpression g s
  expectMark .parenClose
  let body ← bodyOf g s
  pure (node .forIn [left, object, body])

/-- The list of a loop over values and its body. -/
def forOfRest (g : Grammar) (s : Scope) (isAwait : Bool) (left : Tree) : Parser Tree := do
  expectWord "of"
  let list ← g (.assignment s)
  expectMark .parenClose
  let body ← bodyOf g s
  pure (node (.forOf isAwait) [left, list, body])

/-- A loop after its declaration. Names that take the keys or values of an object need none of
their own. -/
def forDeclared (g : Grammar) (s : Scope) (isAwait : Bool) (kind : BindingKind)
    (ds : List Tree) : Parser Tree := do
  let left := node (.declaration kind) ds
  require (!isResource kind || ds.all isNamed)
  if ← atWord "of" then forOfRest g s isAwait left
  else
    require (!isAwait)
    if ← atWord "in" then
      require (!isResource kind)
      forInRest g s left
    else
      require (!ds.any (lacksValue kind))
      forRest g s left

def forStatement (g : Grammar) (s : Scope) : Parser Tree := do
  advance
  let isAwait ← if s.inAsync then eatWord "await" else pure false
  expectMark .parenOpen
  if (← atMark .semicolon) && !isAwait then forRest g s missing
  else
    match ← declarationStart true startsLoopDeclarator with
    | some kind =>
        let ds ← declarators g s.loopHead
        forDeclared g s isAwait kind ds
    | none =>
        let isAsyncOf := (← atWord "async") && (← followingToken).isWord "of"
        let e ← anyExpression g s.loopHead
        if ← atWord "of" then
          require (isAwait || !isAsyncOf)
          forOfRest g s isAwait (← asPattern true e)
        else
          require (!isAwait)
          if ← atWord "in" then forInRest g s (← asPattern true e)
          else forRest g s e

/-- A conditional statement from the word `if` on. -/
def ifStatement (g : Grammar) (s : Scope) : Parser Tree := do
  advance
  let test ← inParentheses g s
  let first ← bodyOf g s
  if ← eatWord "else" then
    let second ← bodyOf g s
    pure (node .ifElse [test, first, second])
  else pure (node .ifElse [test, first])

/-- The statements of a case, up to the next case or the end. -/
def caseStatements (g : Grammar) (s : Scope) : Parser (List Tree) :=
  loop [] fun acc => do
    if (← atMark .braceClose) || (← atWord "case") || (← atWord "default") then
      pure (.inr acc.reverse)
    else
      let t ← g (.statement s true)
      pure (.inl (t :: acc))

def switchCases (g : Grammar) (s : Scope) : Parser (List Tree) :=
  loop [] fun acc => do
    if ← eatMark .braceClose then pure (.inr acc.reverse)
    else
      let test ←
        if ← eatWord "case" then anyExpression g s
        else
          expectWord "default"
          pure missing
      expectMark .colon
      let body ← caseStatements g s
      pure (.inl (node .switchCase (test :: body) :: acc))

def catchClause (g : Grammar) (s : Scope) : Parser Tree := do
  let pattern ←
    if ← eatMark .parenOpen then
      let t ← g (.binding s)
      expectMark .parenClose
      pure t
    else pure missing
  return node .catchClause [pattern, ← block g s]

/-- A `try` statement from its word on; one of the two ways to end it is needed. -/
def tryStatement (g : Grammar) (s : Scope) : Parser Tree := do
  advance
  let body ← block g s
  let handler ← if ← eatWord "catch" then catchClause g s else pure missing
  let last ← if ← eatWord "finally" then block g s else pure missing
  require (!handler.isMissing || !last.isMissing)
  pure (node .tryCatch [body, handler, last])

def jumpLabel (s : Scope) : Parser (Option String) := do
  match ← token with
  | .name w _ =>
      if (← isFresh) || reservedWords.contains w then pure none
      else some <$> variableName s
  | _ => pure none

/-- A statement that starts with an expression: the expression, or a label before a statement. -/
def expressionStatement (g : Grammar) (s : Scope) : Parser Tree := do
  let e ← anyExpression g s
  match e with
  | node (.identifier n) _ =>
      if ← eatMark .colon then
        return node (.labeled n) [← bodyOf g s]
      else
        endStatement
        pure (node .expression [e])
  | _ =>
      endStatement
      pure (node .expression [e])

/-- A statement that starts with `let` as the name of a variable. A member or call of it ends the
statement without a semicolon. -/
def letStatement (g : Grammar) (s : Scope) : Parser Tree := do
  let next ← followingToken
  if next.isMark .dot || next.isMark .parenOpen then
    return node .expression [← anyExpression g s]
  let e ←
    if continuesOperand next then assignment g s
    else passAs (.identifier "let")
  endStatement
  pure (node .expression [e])

/-- Whether the word `import` here starts an expression. -/
def importIsExpression : Parser Bool := do
  match ← following with
  | some n => pure (n.token.isMark .parenOpen || n.token.isMark .dot)
  | none => failure

/-- A statement that starts with a keyword of its own. -/
def keywordStatement (g : Grammar) (s : Scope) (isListed : Bool) (word : String) :
    Parser Tree := do
  match word with
  | "if" => ifStatement g s
  | "for" => forStatement g s
  | "while" =>
      advance
      let test ← inParentheses g s
      return node .whileLoop [test, ← bodyOf g s]
  | "do" =>
      advance
      let body ← bodyOf g s
      expectWord "while"
      let test ← inParentheses g s
      let _ ← eatMark .semicolon
      pure (node .doWhile [body, test])
  | "switch" =>
      advance
      let value ← inParentheses g s
      expectMark .braceOpen
      return node .switch (value :: (← switchCases g s))
  | "try" => tryStatement g s
  | "throw" =>
      advance
      require (!(← isFresh))
      let e ← anyExpression g s
      endStatement
      pure (node .throwing [e])
  | "return" =>
      require s.inFunction
      advance
      let t ← token
      if (← isFresh) || t.isMark .semicolon || t.isMark .braceClose || t == .finish then
        endStatement
        pure (leaf .returning)
      else
        let e ← anyExpression g s.bracketed
        endStatement
        pure (node .returning [e])
  | "break" =>
      advance
      let label ← jumpLabel s
      endStatement
      pure (leaf (.breaking label))
  | "continue" =>
      advance
      let label ← jumpLabel s
      endStatement
      pure (leaf (.continuing label))
  | "with" =>
      advance
      let object ← inParentheses g s
      return node .withObject [object, ← bodyOf g s]
  | "debugger" =>
      advance
      endStatement
      pure (leaf .debugger)
  | "class" =>
      require isListed
      classFrom g s (leaf .decorators)
  | "let" => letStatement g s
  | "import" => if ← importIsExpression then expressionStatement g s else importStatement s
  | "export" => exportStatement g s (leaf .decorators)
  | _ => expressionStatement g s

/-- A class behind its decorators, or the export of one. -/
def decoratedStatement (g : Grammar) (s : Scope) : Parser Tree := do
  let ds ← decorators g s
  if ← atWord "export" then exportStatement g s ds else classFrom g s ds

/-- A statement without what a comment says about it; one that is the body of another declares no
block name. -/
def plainStatement (g : Grammar) (s : Scope) (isListed : Bool) : Parser Tree := do
  match ← declarationStart false (startsDeclarator isListed) with
  | some kind =>
      require (isListed || kind == .var)
      let ds ← declarators g s
      require (!ds.any (lacksValue kind) && (!isResource kind || ds.all isNamed))
      endStatement
      pure (node (.declaration kind) ds)
  | none =>
      match ← functionStart with
      | some isAsync =>
          if isAsync then advance
          functionDeclaration g s isAsync isListed
      | none =>
          match ← token with
          | .mark .braceOpen => block g s
          | .mark .semicolon =>
              advance
              pure (leaf .empty)
          | .mark .atSign =>
              require isListed
              decoratedStatement g s
          | .name word false => keywordStatement g s isListed word
          | _ => expressionStatement g s

/-- A statement whose function is called free of effects: a function that is declared, or the first
constant of a declaration. -/
def markedStatement : Tree → Tree
  | node (.function isAsync isGenerator _) ps => node (.function isAsync isGenerator true) ps
  | node (.declaration .constant) (node .declarator [target, value] :: ds) =>
      node (.declaration .constant) (node .declarator [target, markedEffectFree value] :: ds)
  | node .exportDeclaration [t] => node .exportDeclaration [markedStatement t]
  | node .exportDefault [node (.function isAsync isGenerator _) ps] =>
      node .exportDefault [node (.function isAsync isGenerator true) ps]
  | t => t

/-- A statement. A comment in front may call its function free of effects. -/
def statement (g : Grammar) (s : Scope) (isListed : Bool) : Parser Tree := do
  let isEffectFree ← look fun c => c.gap.isEffectFree
  let t ← plainStatement g s isListed
  pure (if isEffectFree then markedStatement t else t)

end DefineBundle.Script.Parser
