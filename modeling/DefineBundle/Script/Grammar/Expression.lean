import DefineBundle.Script.Grammar.Type

/-!
# Expressions

Literals, member and call chains, unary and binary operators, conditionals, assignments and arrow
functions. An arrow function is found after the fact: a name, or an expression list between
parentheses, that is followed by an arrow was a parameter list. It can only begin an assignment
expression, and no operator applies to it.
-/
namespace DefineBundle.Script.Parser

open DefineBundle.Script.Tree

def isArrow : Tree → Bool
  | node (.arrow _ _ _) _ => true
  | _ => false

/-- Whether the parameters of an arrow function have ended: an arrow follows on the same line. -/
def atArrow : Parser Bool :=
  look fun c => c.token.isMark .arrow && !c.gap.isFresh

/-- An expression with its outermost call called pure, whose callee or operand comes first. -/
def markedPure : Tree → Tree
  | node (.call isOptional _) ps => node (.call isOptional true) ps
  | node (.construct _) ps => node (.construct true) ps
  | node .chain [node (.call isOptional _) ps] => node .chain [node (.call isOptional true) ps]
  | node (.binary op) [l, r] => node (.binary op) [markedPure l, r]
  | node .conditional [test, a, b] => node .conditional [markedPure test, a, b]
  | node .parens [e] => node .parens [markedPure e]
  | t => t

/-- A function that is called free of effects. -/
def markedEffectFree : Tree → Tree
  | node (.function isAsync isGenerator _) ps => node (.function isAsync isGenerator true) ps
  | node (.arrow isAsync isConcise _) ps => node (.arrow isAsync isConcise true) ps
  | t => t

/-- An operand, of which a comment in front may say that it is pure. -/
def annotatedOperand (operand : Parser Tree) : Parser Tree := do
  let isPure ← look fun c => c.gap.isPure
  let e ← operand
  pure (if isPure then markedPure e else e)

/-- The elements of an array literal after its bracket. -/
def arrayItems (g : Grammar) (s : Scope) : Parser (List Tree) :=
  loop [] fun acc => do
    if ← eatMark .bracketClose then pure (.inr acc.reverse)
    else if ← eatMark .comma then pure (.inl (leaf .hole :: acc))
    else
      let t ← if ← eatMark .ellipsis then spread g s else g (.assignment s.bracketed)
      if ← eatMark .comma then pure (.inl (t :: acc))
      else
        expectMark .bracketClose
        pure (.inr (t :: acc).reverse)

/-- A regular expression, the current token being its slash. -/
def regularExpression : Parser Tree := do
  let c ← get
  match Literal.regex? (c.here.drop 1) with
  | some (pattern, flags, rest) =>
      resume rest
      pure (leaf (.regex pattern flags))
  | none => failure

def expression (g : Grammar) (s : Scope) (first : Tree) : Parser Tree := do
  if ← atMark .comma then
    loop [first] fun acc => do
      if ← eatMark .comma then
        let e ← g (.assignment s)
        pure (.inl (e :: acc))
      else pure (.inr (node .sequence acc.reverse))
  else pure first

/-- An expression nested between brackets of some kind. -/
def nestedExpression (g : Grammar) (s : Scope) : Parser Tree := do
  expression g s.bracketed (← g (.assignment s.bracketed))

/-- The next chunk of a template literal, from the given characters on. -/
def templateChunk (mayBeInvalid : Bool) (cs : List Char) : Parser (String × Bool) := do
  match Literal.chunk? cs with
  | some (raw, isValid, isLast, rest) =>
      require (isValid || mayBeInvalid)
      resume rest
      pure (raw, isLast)
  | none => failure

/-- A template literal from its backquote on. Only one with a tag may hold escapes without value. -/
def template (g : Grammar) (s : Scope) (isTagged : Bool) : Parser Tree := do
  let (raw, isLast) ← templateChunk isTagged (← get).rest
  loop ([raw], [], isLast) fun (chunks, es, isLast) => do
    if isLast then pure (.inr (node (.template chunks.reverse) es.reverse))
    else
      let e ← nestedExpression g s
      require (← atMark .braceClose)
      let (raw, isLast) ← templateChunk isTagged (← get).rest
      pure (.inl (raw :: chunks, e :: es, isLast))

/-- Expressions between parentheses, as they may be the parameters of an arrow function. -/
structure Parenthesized where
  items : List Tree
  /-- Whether only an arrow may follow. -/
  needsArrow : Bool

/-- Expressions after a parenthesis, up to its end. -/
def parenthesized (g : Grammar) (s : Scope) : Parser Parenthesized := do
  if ← eatMark .parenClose then pure ⟨[], true⟩
  else
    loop [] fun acc => do
      if ← eatMark .ellipsis then
        let t ← restElement g s
        expectMark .parenClose
        pure (.inr ⟨(t :: acc).reverse, true⟩)
      else
        let e ← g (.assignment s.bracketed)
        if ← eatMark .comma then
          if ← eatMark .parenClose then pure (.inr ⟨(e :: acc).reverse, true⟩)
          else pure (.inl (e :: acc))
        else
          expectMark .parenClose
          pure (.inr ⟨(e :: acc).reverse, false⟩)

/-- A parenthesis at the start of an expression: an arrow function where one may begin, otherwise
the expression inside. -/
def parenthesis (g : Grammar) (s : Scope) (mayBeArrow : Bool) : Parser Tree := do
  expectMark .parenOpen
  let p ← parenthesized g s
  if mayBeArrow && (← atArrow) then
    let ps ← asParameters p.items
    arrowTail g s false ps
  else
    require (!p.needsArrow)
    match p.items with
    | [e] => pure (node .parens [e])
    | es => pure (node .parens [node .sequence es])

/-- Arguments of a call after their parenthesis. -/
def arguments (g : Grammar) (s : Scope) : Parser (List Tree) :=
  commaSeparated .parenClose do
    if ← eatMark .ellipsis then spread g s else g (.assignment s.bracketed)

/-- The only parameter of an asynchronous arrow function, without parentheses, with the arrow after
it still to come. -/
def asyncParameter (s : Scope) : Parser Tree := do
  let name ← variableName s
  require (← atArrow)
  pure (node .parameters [leaf (.identifier name)])

/-- The parameters of an asynchronous arrow function, with the arrow after them still to come. -/
def asyncParameters (g : Grammar) (s : Scope) : Parser Tree := do
  let ps ← parameters g { s.bracketed with inAsync := true }
  require (← atArrow)
  pure ps

/-- What begins with the word `async`: a function, an arrow function, or the plain name. -/
def asyncStart (g : Grammar) (s : Scope) (mayBeArrow : Bool) : Parser Tree := do
  advance
  let onLine := !(← isFresh)
  match ← token with
  | .name w isEscaped =>
      if onLine && w == "function" && !isEscaped then functionExpression g true
      else if onLine && mayBeArrow && !reservedWords.contains w then
        match ← attempt (asyncParameter s) with
        | some ps => arrowTail g s true ps
        | none => pure (leaf (.identifier "async"))
      else pure (leaf (.identifier "async"))
  | .mark .parenOpen =>
      if onLine && mayBeArrow then
        match ← attempt (asyncParameters g s) with
        | some ps => arrowTail g s true ps
        | none => pure (leaf (.identifier "async"))
      else pure (leaf (.identifier "async"))
  | _ => pure (leaf (.identifier "async"))

/-- The superclass behind its word, if there is one. Of several the first counts. -/
def superclass (g : Grammar) (s : Scope) : Parser Tree := do
  if ← eatWord "extends" then
    loop (← g (.heritage s)) fun first => do
      if ← eatMark .comma then
        let _ ← g (.heritage s)
        pure (.inl first)
      else pure (.inr first)
  else pure missing

/-- The interfaces behind the given word, if it is there. -/
def interfaces (g : Grammar) (s : Scope) (word : String) : Parser Tree := do
  if ← eatWord word then
    loop [] fun acc => do
      let t ← typeReference g s
      if ← eatMark .comma then pure (.inl (t :: acc))
      else pure (.inr (node .interfaces (t :: acc).reverse))
  else pure (leaf .interfaces)

/-- Whether the name of a class comes next. A word that begins a list of interfaces is none. -/
def atClassName : Parser Bool := do
  match ← token, ← followingToken with
  | .name "implements" _, .name _ _ => pure false
  | .name w _, _ => pure (w != "extends")
  | _, _ => pure false

/-- A class from its keyword on, with the decorators in front of it. -/
def classFrom (g : Grammar) (s : Scope) (ds : Tree) : Parser Tree := do
  expectWord "class"
  let name ← if ← atClassName then (leaf ∘ .identifier) <$> variableName s else pure missing
  let parent ← superclass g s
  let claims ← interfaces g s "implements"
  expectMark .braceOpen
  let members ← classMembers g s
  pure (node .classOf (ds :: name :: parent :: claims :: members))

/-- A leaf for the current token, which is passed. -/
def passAs (form : Form) : Parser Tree := do
  advance
  pure (leaf form)

/-- An expression without operators, members or calls. -/
def primary (g : Grammar) (s : Scope) (mayBeArrow : Bool) : Parser Tree := do
  match ← token with
  | .number v => passAs (.number v)
  | .bigInt d => passAs (.bigInt d)
  | .string v l _ => passAs (.string v l)
  | .operator .div => regularExpression
  | .assign (some .div) => regularExpression
  | .mark .backquote => template g s false
  | .mark .parenOpen => parenthesis g s mayBeArrow
  | .mark .atSign => do classFrom g s (← decorators g s)
  | .mark .bracketOpen =>
      advance
      pure (node .array (← arrayItems g s))
  | .mark .braceOpen =>
      advance
      pure (node .object (← commaSeparated .braceClose (objectProperty g s)))
  | .name w false =>
      if w == "this" then passAs .thisRef
      else if w == "null" then passAs .nullLiteral
      else if w == "true" then passAs (.boolean true)
      else if w == "false" then passAs (.boolean false)
      else if w == "function" then functionExpression g false
      else if w == "class" then classFrom g s (leaf .decorators)
      else if w == "async" then asyncStart g s mayBeArrow
      else (leaf ∘ .identifier) <$> variableName s
  | .name _ true => (leaf ∘ .identifier) <$> variableName s
  | _ => failure

def optionalLink (g : Grammar) (s : Scope) (e : Tree) : Parser Tree := do
  match ← token with
  | .mark .parenOpen =>
      advance
      return node (.call true false) (e :: (← arguments g s))
  | .mark .bracketOpen =>
      advance
      let key ← nestedExpression g s
      expectMark .bracketClose
      pure (node (.index true) [e, key])
  | .privateName n =>
      advance
      pure (node (.privateMember true n) [e])
  | _ => return node (.member true (← anyName)) [e]

/-- Members, calls and templates after an expression, as many as there are. In the callee of `new`
there are no calls and no optional links, and in a decorator no brackets. -/
def chainFrom (g : Grammar) (s : Scope) (isCallee : Bool) (start : Tree) : Parser Tree :=
  loop (start, false) fun (e, isOptional) => do
    match ← token with
    | .mark .dot =>
        advance
        match ← token with
        | .privateName n =>
            advance
            pure (.inl (node (.privateMember false n) [e], isOptional))
        | _ => return .inl (node (.member false (← anyName)) [e], isOptional)
    | .mark .bracketOpen =>
        if s.inDecorator then pure (.inr (if isOptional then node .chain [e] else e))
        else
          advance
          let key ← nestedExpression g s
          expectMark .bracketClose
          pure (.inl (node (.index false) [e, key], isOptional))
    | .mark .backquote =>
        require (!isOptional)
        let t ← template g s true
        pure (.inl (node .tagged [e, t], isOptional))
    | .mark .optionalDot =>
        require (!isCallee)
        advance
        return .inl (← optionalLink g s e, true)
    | .mark .parenOpen =>
        if isCallee then pure (.inr (if isOptional then node .chain [e] else e))
        else
          advance
          let args ← arguments g s
          pure (.inl (node (.call false false) (e :: args), isOptional))
    | _ => pure (.inr (if isOptional then node .chain [e] else e))

/-- `super`, which must be called or have a member. -/
def superStart : Parser Tree := do
  advance
  let t ← token
  require (t.isMark .parenOpen || t.isMark .dot || t.isMark .bracketOpen)
  pure (leaf .superRef)

def importCall (g : Grammar) (s : Scope) (mode : Option ImportMode) : Parser Tree := do
  expectMark .parenOpen
  let args ← commaSeparated .parenClose (g (.assignment s.bracketed))
  require (args.length == 1 || args.length == 2)
  pure (node (.importCall mode) args)

/-- `import(...)`, with or without a word that says how, or `import.meta`. -/
def importStart (g : Grammar) (s : Scope) : Parser Tree := do
  advance
  if ← eatMark .dot then
    if ← eatWord "source" then importCall g s (some .source)
    else if ← eatWord "defer" then importCall g s (some .deferred)
    else
      expectWord "meta"
      pure (leaf (.metaProperty "import" "meta"))
  else importCall g s none

/-- `new` with its callee and arguments, or `new.target`. -/
def construction (g : Grammar) (s : Scope) : Parser Tree := do
  advance
  if ← eatMark .dot then
    expectWord "target"
    pure (leaf (.metaProperty "new" "target"))
  else
    let callee ← g (.constructed s)
    require (!(← atMark .optionalDot))
    let args ← if ← eatMark .parenOpen then arguments g s else pure []
    pure (node (.construct false) (callee :: args))

def chainStart (g : Grammar) (s : Scope) (mayBeArrow : Bool) : Parser Tree := do
  let t ← token
  if t.isWord "new" then construction g s
  else if t.isWord "super" then superStart
  else if t.isWord "import" then importStart g s
  else primary g s mayBeArrow

/-- An expression that may stand left of an assignment operator. -/
def leftHandSide (g : Grammar) (s : Scope) (mayBeArrow : Bool) : Parser Tree := do
  let e ← chainStart g s mayBeArrow
  if isArrow e then pure e else chainFrom g s false e

def constructed (g : Grammar) (s : Scope) : Parser Tree := do
  require (!(← atWord "import"))
  let e ← chainStart g s false
  chainFrom g s true e

/-- The operator in front of an operand, if the token is one. -/
def unaryOp? : Token → Option UnaryOp
  | .operator .sub => some .minus
  | .operator .add => some .plus
  | .not => some .not
  | .complement => some .complement
  | .name "typeof" false => some .typeof
  | .name "void" false => some .void
  | .name "delete" false => some .delete
  | _ => none

/-- An expression with the operators in front of and after it. -/
def unary (g : Grammar) (s : Scope) (mayBeArrow : Bool) : Parser Tree := do
  let t ← token
  match unaryOp? t with
  | some op =>
      advance
      return node (.unary op) [← annotatedOperand (g (.unary s))]
  | none =>
      match t with
      | .update op =>
          advance
          let e ← g (.unary s)
          require (isPlace e)
          pure (node (.update op true) [e])
      | _ =>
          if s.inAsync && t.isWord "await" then
            advance
            return node .awaiting [← g (.unary s)]
          else
            let e ← leftHandSide g s mayBeArrow
            match ← token with
            | .update op =>
                if (← isFresh) || isArrow e then pure e
                else
                  require (isPlace e)
                  advance
                  pure (node (.update op false) [e])
            | _ => pure e

/-- Whether an operand begins with an operator, so that a power needs parentheses around it. -/
def hasUnaryOp : Tree → Bool
  | node (.unary _) _ => true
  | node .awaiting _ => true
  | _ => false

/-- A power, which groups to the right, or the test for a private name, which takes an operand of a
comparison wherever it stands. -/
def power (g : Grammar) (s : Scope) (mayBeArrow : Bool) : Parser Tree := do
  match ← token with
  | .privateName n =>
      advance
      require s.allowsIn
      expectWord "in"
      return node (.privateIn n) [← g (.compared s)]
  | _ =>
      let base ← annotatedOperand (unary g s mayBeArrow)
      if !isArrow base && (← token) == .operator .pow then
        require (!hasUnaryOp base)
        advance
        return node (.binary .pow) [base, ← g (.power s)]
      else pure base

/-- The operator between two operands, if the token is one. -/
def binaryOp? (s : Scope) : Token → Option BinaryOp
  | .operator op => some op
  | .name "instanceof" false => some .instanceOf
  | .name "in" false => if s.allowsIn then some .inside else none
  | _ => none

/-- Operators that group to the left and bind more strongly than a comparison, in groups of equal
strength, the weakest first. -/
def operandGroups : List (List BinaryOp) :=
  [[.shiftLeft, .shiftRight, .shiftRightZero], [.add, .sub], [.mul, .div, .rem]]

/-- Operators that group to the left, in groups of equal strength, the weakest first. -/
def operatorGroups : List (List BinaryOp) :=
  [[.coalesce], [.or], [.and], [.bitOr], [.bitXor], [.bitAnd],
    [.equal, .notEqual, .same, .notSame],
    [.less, .lessEqual, .greater, .greaterEqual, .instanceOf, .inside]] ++ operandGroups

/-- Whether an operand is a disjunction or conjunction without parentheses. -/
def isMixed : Tree → Bool
  | node (.binary .or) _ => true
  | node (.binary .and) _ => true
  | _ => false

/-- Operands with the operators of the given groups between them. -/
def binaryOver (g : Grammar) (s : Scope) (mayBeArrow : Bool) : List (List BinaryOp) → Parser Tree
  | [] => power g s mayBeArrow
  | ops :: tighter => do
      let first ← binaryOver g s mayBeArrow tighter
      if isArrow first then pure first
      else
        loop first fun left => do
          match binaryOp? s (← token) with
          | some op =>
              if ops.contains op then
                advance
                let right ← binaryOver g s false tighter
                require (op != .coalesce || !(isMixed left || isMixed right))
                pure (.inl (node (.binary op) [left, right]))
              else pure (.inr left)
          | none => pure (.inr left)

/-- A test with its two branches, or just an operand. -/
def conditional (g : Grammar) (s : Scope) : Parser Tree := do
  let test ← binaryOver g s true operatorGroups
  if ← pure (!isArrow test) <&&> eatMark .question then
    let a ← g (.assignment s.bracketed)
    expectMark .colon
    let b ← g (.assignment s)
    pure (node .conditional [test, a, b])
  else pure test

def yielding (g : Grammar) (s : Scope) : Parser Tree := do
  advance
  if ← isFresh then pure (leaf (.yielding false))
  else
    match ← token with
    | .operator .mul =>
        advance
        return node (.yielding true) [← g (.assignment s)]
    | .mark .parenClose | .mark .bracketClose | .mark .braceClose | .mark .comma
    | .mark .semicolon | .mark .colon | .finish => pure (leaf (.yielding false))
    | .name "in" false => pure (leaf (.yielding false))
    | _ => return node (.yielding false) [← g (.assignment s)]

/-- An expression without a comma outside brackets. A comment in front may call a function free of
effects. -/
def assignment (g : Grammar) (s : Scope) : Parser Tree := do
  let isEffectFree ← look fun c => c.gap.isEffectFree
  let said := fun t => if isEffectFree then markedEffectFree t else t
  if s.inGenerator && (← atWord "yield") then yielding g s
  else
    let left ← conditional g s
    if isArrow left then pure (said left)
    else match left, ← token with
      | node (.identifier n) _, .mark .arrow =>
          said <$> arrowTail g s false (node .parameters [leaf (.identifier n)])
      | _, .assign op => do
          let target ← asPattern true left
          advance
          return node (.assign op) [target, ← g (.assignment s)]
      | _, _ => pure (said left)

def anyExpression (g : Grammar) (s : Scope) : Parser Tree := do
  expression g s (← assignment g s)

end DefineBundle.Script.Parser
