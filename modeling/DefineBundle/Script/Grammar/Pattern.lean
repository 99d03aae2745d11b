import DefineBundle.Script.Grammar.Goal

/-!
# Patterns

A pattern in a declaration is read as such. The left side of an assignment and the parameters of
an arrow function are first read as expressions and then turned into patterns.
-/
namespace DefineBundle.Script.Parser

open DefineBundle.Script.Tree

/-- A declared name or pattern with its default value, if any. -/
def bindingElement (g : Grammar) (s : Scope) : Parser Tree := do
  let target ← g (.binding s)
  if (← token) == .assign none then
    advance
    let value ← g (.assignment s.bracketed)
    pure (node .withDefault [target, value])
  else pure target

def restElement (g : Grammar) (s : Scope) : Parser Tree := do
  let target ← g (.binding s)
  pure (node .rest [target])

def spread (g : Grammar) (s : Scope) : Parser Tree := do
  let e ← g (.assignment s.bracketed)
  return node (.spread (← atMark .comma)) [e]

/-- The elements of an array pattern after its bracket. -/
def arrayElements (g : Grammar) (s : Scope) : Parser (List Tree) :=
  loop [] fun acc => do
    if ← eatMark .bracketClose then pure (.inr acc.reverse)
    else if ← eatMark .comma then pure (.inl (leaf .hole :: acc))
    else if ← eatMark .ellipsis then
      let t ← restElement g s
      expectMark .bracketClose
      pure (.inr (t :: acc).reverse)
    else
      let t ← bindingElement g s
      if ← eatMark .comma then pure (.inl (t :: acc))
      else
        expectMark .bracketClose
        pure (.inr (t :: acc).reverse)

/-- A property of an object pattern. One that is its name alone may have any name that is not
reserved everywhere. -/
def patternProperty (g : Grammar) (s : Scope) : Parser Tree := do
  let word ← token
  let key ← propertyKey g s
  if ← eatMark .colon then
    let value ← bindingElement g s
    pure (node (.property .plain) [key, value])
  else match word with
    | .name n _ =>
        require (!reservedWords.contains n)
        if (← token) == .assign none then
          advance
          let value ← g (.assignment s.bracketed)
          pure (node (.property .shorthand) [key, node .withDefault [leaf (.identifier n), value]])
        else pure (node (.property .shorthand) [key, leaf (.identifier n)])
    | _ => failure

/-- The properties of an object pattern after its brace. -/
def patternProperties (g : Grammar) (s : Scope) : Parser (List Tree) :=
  loop [] fun acc => do
    if ← eatMark .braceClose then pure (.inr acc.reverse)
    else if ← eatMark .ellipsis then
      let n ← variableName s
      expectMark .braceClose
      pure (.inr (node .rest [leaf (.identifier n)] :: acc).reverse)
    else
      let t ← patternProperty g s
      if ← eatMark .comma then pure (.inl (t :: acc))
      else
        expectMark .braceClose
        pure (.inr (t :: acc).reverse)

def binding (g : Grammar) (s : Scope) : Parser Tree := do
  match ← token with
  | .mark .bracketOpen =>
      advance
      pure (node (.arrayPattern false) (← arrayElements g s))
  | .mark .braceOpen =>
      advance
      pure (node (.objectPattern false) (← patternProperties g s))
  | _ => pure (leaf (.identifier (← variableName s)))

/-- One shorthand property with a default has become part of a pattern. -/
def closeDefault : Parser Unit :=
  modify fun c => { c with openDefaults := c.openDefaults - 1 }

/-- One shorthand property with a default was read. -/
def openDefault : Parser Unit :=
  modify fun c => { c with openDefaults := c.openDefaults + 1 }

/-- Whether an expression names a place: a variable or a property, outside an optional chain. -/
def isPlace : Tree → Bool
  | node (.identifier _) _ => true
  | node (.member false _) _ => true
  | node (.privateMember false _) _ => true
  | node (.index false) _ => true
  | node .parens [t] => isPlace t
  | _ => false

mutual

/-- Turns an expression into the pattern it spells: with `isTarget` the left side of an assignment,
where properties and parentheses may stand for a place, otherwise a parameter. -/
def asPattern (isTarget : Bool) : Tree → Parser Tree
  | node (.identifier n) ps => pure (node (.identifier n) ps)
  | node .array ps => return node (.arrayPattern isTarget) (← asElements isTarget ps)
  | node .object ps => return node (.objectPattern isTarget) (← asProperties isTarget ps)
  | node (.arrayPattern true) ps =>
      return node (.arrayPattern isTarget) (← asElements isTarget ps)
  | node (.objectPattern true) ps =>
      return node (.objectPattern isTarget) (← asProperties isTarget ps)
  | t => do
      require (isTarget && isPlace t)
      pure t.unparenthesized
termination_by structural t => t

def asElement (isTarget : Bool) : Tree → Parser Tree
  | node (.assign none) [t, v] => return node .withDefault [← asPattern isTarget t, v]
  | node .withDefault [t, v] => return node .withDefault [← asPattern isTarget t, v]
  | node (.identifier n) ps => pure (node (.identifier n) ps)
  | node .array ps => return node (.arrayPattern isTarget) (← asElements isTarget ps)
  | node .object ps => return node (.objectPattern isTarget) (← asProperties isTarget ps)
  | node (.arrayPattern true) ps =>
      return node (.arrayPattern isTarget) (← asElements isTarget ps)
  | node (.objectPattern true) ps =>
      return node (.objectPattern isTarget) (← asProperties isTarget ps)
  | t => do
      require (isTarget && isPlace t)
      pure t.unparenthesized
termination_by structural t => t

/-- The elements of an array as elements of a pattern; a spread is the last, without a comma. -/
def asElements (isTarget : Bool) : List Tree → Parser (List Tree)
  | [] => pure []
  | [node (.spread false) [t]] => return [node .rest [← asPattern isTarget t]]
  | [node .rest [t]] => return [node .rest [← asPattern isTarget t]]
  | node .hole _ :: ts => return leaf .hole :: (← asElements isTarget ts)
  | t :: ts => return (← asElement isTarget t) :: (← asElements isTarget ts)
termination_by structural ts => ts

/-- The properties of an object as properties of a pattern; a spread is the last. In an assignment
any place or pattern may take the rest, and a comma may follow; a parameter is a name. -/
def asProperties (isTarget : Bool) : List Tree → Parser (List Tree)
  | [] => pure []
  | [node (.spread isFollowed) [t]] => do
      require (isTarget || (isPlace t && !isFollowed))
      return [node .rest [← asPattern isTarget t]]
  | [node .rest [t]] => do
      require (isTarget || isPlace t)
      return [node .rest [← asPattern isTarget t]]
  | node (.property .plain) [key, v] :: ts => do
      let v ← asElement isTarget v
      return node (.property .plain) [key, v] :: (← asProperties isTarget ts)
  | node (.property .shorthand) [key, node (.assign none) [t, v]] :: ts => do
      closeDefault
      return node (.property .shorthand) [key, node .withDefault [t, v]] ::
        (← asProperties isTarget ts)
  | node (.property .shorthand) ps :: ts =>
      return node (.property .shorthand) ps :: (← asProperties isTarget ts)
  | _ => failure
termination_by structural ts => ts

end

/-- Expressions as parameters; a parameter that takes the rest was read as one. -/
def asParameterList : List Tree → Parser (List Tree)
  | [] => pure []
  | node .rest [t] :: ts => return node .rest [t] :: (← asParameterList ts)
  | t :: ts => return (← asElement false t) :: (← asParameterList ts)

/-- The expressions between parentheses as parameters of an arrow function. -/
def asParameters (ts : List Tree) : Parser Tree :=
  return node .parameters (← asParameterList ts)

end DefineBundle.Script.Parser
