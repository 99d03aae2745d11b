import DefineBundle.Script.Grammar.Pattern

/-!
# Functions and classes

Parameters, bodies, and the members of object literals and classes that hold functions.
-/
namespace DefineBundle.Script.Parser

open DefineBundle.Script.Tree

/-- Expressions behind at signs, which decorate what follows. -/
def decorators (g : Grammar) (s : Scope) : Parser Tree :=
  loop [] fun acc => do
    if ← eatMark .atSign then
      let e ← g (.heritage { s with inDecorator := true })
      pure (.inl (e :: acc))
    else pure (.inr (node .decorators acc.reverse))

/-- A parameter behind its decorators, if it has any. -/
def decorated (ds t : Tree) : Tree :=
  if ds.parts.isEmpty then t else node .decorated [ds, t]

/-- Parameters after their parenthesis. One that takes the rest is the last. -/
def parameterList (g : Grammar) (s : Scope) : Parser (List Tree) :=
  loop [] fun acc => do
    if ← eatMark .parenClose then pure (.inr acc.reverse)
    else
      let ds ← decorators g s
      if ← eatMark .ellipsis then
        let t ← restElement g s
        expectMark .parenClose
        pure (.inr (decorated ds t :: acc).reverse)
      else
        let t ← decorated ds <$> bindingElement g s
        if ← eatMark .comma then pure (.inl (t :: acc))
        else
          expectMark .parenClose
          pure (.inr (t :: acc).reverse)

def parameters (g : Grammar) (s : Scope) : Parser Tree := do
  expectMark .parenOpen
  return node .parameters (← parameterList g s)

/-- Statements up to a closing brace, which is passed. -/
def statementsToBrace (g : Grammar) (s : Scope) : Parser (List Tree) :=
  loop [] fun acc => do
    if ← eatMark .braceClose then pure (.inr acc.reverse)
    else
      let t ← g (.statement s true)
      pure (.inl (t :: acc))

/-- The raw text of a string literal that stands alone as a statement. -/
def directive? (first : Token) (t : Tree) : Option String :=
  match first, t with
  | .string _ _ raw, node .expression [node (.string _ _) _] => some raw
  | _, _ => none

/-- Directives, and the statement after them if one was read. -/
def directives (g : Grammar) (s : Scope) : Parser (List String × List Tree) :=
  loop [] fun acc => do
    let first ← token
    match first with
    | .string _ _ _ =>
        let t ← g (.statement s true)
        match directive? first t with
        | some raw => pure (.inl (raw :: acc))
        | none => pure (.inr (acc.reverse, [t]))
    | _ => pure (.inr (acc.reverse, []))

def functionBody (g : Grammar) (s : Scope) : Parser Tree := do
  expectMark .braceOpen
  let (ds, first) ← directives g s
  let rest ← statementsToBrace g s
  pure (node (.body ds) (first ++ rest))

def functionTail (g : Grammar) (isAsync isGenerator : Bool) (name : Tree) : Parser Tree := do
  let s := Scope.function isAsync isGenerator
  let ps ← parameters g s
  let body ← functionBody g s
  pure (node (.function isAsync isGenerator false) [name, ps, body])

/-- A function expression from its keyword on. -/
def functionExpression (g : Grammar) (isAsync : Bool) : Parser Tree := do
  expectWord "function"
  let isGenerator := (← token) == .operator .mul
  if isGenerator then advance
  let name ← match ← token with
    | .name _ _ => (leaf ∘ .identifier) <$> variableName (Scope.function isAsync isGenerator)
    | _ => pure missing
  functionTail g isAsync isGenerator name

/-- Whether a function declaration starts here, and whether it is asynchronous. -/
def functionStart : Parser (Option Bool) := do
  let t ← token
  if t.isWord "function" then pure (some false)
  else if t.isWord "async" then
    match ← following with
    | some n => pure (if n.token.isWord "function" && !n.gap.isFresh then some true else none)
    | none => failure
  else pure none

/-- A function declaration from its keyword on. -/
def functionDeclaration (g : Grammar) (s : Scope) (isAsync isListed : Bool) : Parser Tree := do
  expectWord "function"
  let isGenerator := (← token) == .operator .mul
  if isGenerator then advance
  let name ← variableName s
  require (isListed || !(isAsync || isGenerator))
  functionTail g isAsync isGenerator (leaf (.identifier name))

/-- The body of an arrow function after its arrow. A concise body is held as a statement. -/
def arrowBody (g : Grammar) (s : Scope) (isAsync : Bool) (ps : Tree) : Parser Tree := do
  if ← atMark .braceOpen then
    let body ← functionBody g (s.arrowBody isAsync)
    pure (node (.arrow isAsync false false) [ps, body])
  else
    let e ← g (.assignment { s with inAsync := isAsync, inGenerator := false })
    pure (node (.arrow isAsync true false) [ps, node (.body []) [node .expression [e]]])

/-- The arrow of an arrow function, on the line of its parameters, and its body. -/
def arrowTail (g : Grammar) (s : Scope) (isAsync : Bool) (ps : Tree) : Parser Tree := do
  require (!(← isFresh))
  expectMark .arrow
  arrowBody g s isAsync ps

/-- What stands before the key of a method: a word, or the mark of a generator. -/
structure MethodStart where
  kind : MethodKind
  isAsync : Bool
  isGenerator : Bool

def startsKey : Token → Bool
  | .name _ _ | .privateName _ | .number _ | .bigInt _ | .string _ _ _ => true
  | t => t.isMark .bracketOpen

/-- The words before a method's key, which are passed; a word before anything else is the key
itself. -/
def methodStart : Parser MethodStart := do
  let next ← following
  let (nextToken, nextFresh) := match next with
    | some c => (c.token, c.gap.isFresh)
    | none => (.finish, false)
  let t ← token
  if t.isWord "get" && startsKey nextToken then
    advance
    pure ⟨.getter, false, false⟩
  else if t.isWord "set" && startsKey nextToken then
    advance
    pure ⟨.setter, false, false⟩
  else if t.isWord "async" && !nextFresh &&
      (startsKey nextToken || nextToken == .operator .mul) then
    advance
    let isGenerator := (← token) == .operator .mul
    if isGenerator then advance
    pure ⟨.plain, true, isGenerator⟩
  else if t == .operator .mul then
    advance
    pure ⟨.plain, false, true⟩
  else pure ⟨.plain, false, false⟩

/-- Whether words or marks were passed before the key. -/
def MethodStart.isBare (m : MethodStart) : Bool :=
  m.kind == .plain && !m.isAsync && !m.isGenerator

/-- The function of a method, from its parameters on. -/
def methodFunction (g : Grammar) (m : MethodStart) : Parser Tree :=
  functionTail g m.isAsync m.isGenerator missing

/-- What a member of an object literal is, by its start. -/
def methodPropertyKind : MethodKind → PropertyKind
  | .getter => .getter
  | .setter => .setter
  | _ => .method

def objectProperty (g : Grammar) (s : Scope) : Parser Tree := do
  if ← eatMark .ellipsis then
    return ← spread g s
  let m ← methodStart
  let word ← token
  let key ← propertyKey g s
  if !m.isBare || (← atMark .parenOpen) then
    return node (.property (methodPropertyKind m.kind)) [key, ← methodFunction g m]
  if ← eatMark .colon then
    return node (.property .plain) [key, ← g (.assignment s.bracketed)]
  match word with
  | .name n _ =>
      require (s.admits n)
      if (← token) == .assign none then
        advance
        openDefault
        let value ← g (.assignment s.bracketed)
        pure (node (.property .shorthand)
          [key, node (.assign none) [leaf (.identifier n), value]])
      else pure (node (.property .shorthand) [key, leaf (.identifier n)])
  | _ => failure

/-- Whether a key is the given word, plain or as a string. -/
def isKey (word : String) : Tree → Bool
  | node (.keyName n) _ => n == word
  | node (.string v _) _ => v == word
  | _ => false

/-- The key of a class member, which may be private. -/
def memberKey (g : Grammar) (s : Scope) : Parser Tree := do
  match ← token with
  | .privateName n =>
      require (n != "constructor")
      advance
      pure (leaf (.privateName n))
  | _ => propertyKey g s

/-- The mark after the key of a member, if there is one. -/
def memberMark : Parser MemberMark := do
  if ← eatMark .question then pure .optional
  else if ← eat (· == .not) then pure .definite
  else pure .bare

/-- The words that may stand in front of the key of a class member, in the order in which they are
written out. -/
def memberWordOrder : List String :=
  ["declare", "public", "private", "protected", "static", "override", "readonly", "accessor"]

def accessWords : List String :=
  ["public", "private", "protected"]

/-- Whether a word stands in front of the key of a class member, given the position after it. -/
def isMemberWord (word : String) (next : Cursor) : Bool :=
  memberWordOrder.contains word && (word == "static" || !next.gap.isFresh) &&
    (startsKey next.token || next.token == .operator .mul ||
      (word == "static" && next.token.isMark .braceOpen))

/-- The words in front of the key of a class member, which are passed. Each stands once. -/
def memberWords : Parser (List String) := do
  let words ← loop [] fun words => do
    match ← token, ← following with
    | .name w false, some n =>
        if isMemberWord w n && !words.contains w then
          advance
          pure (.inl (w :: words))
        else pure (.inr words)
    | _, _ => pure (.inr words)
  require ((words.filter accessWords.contains).length ≤ 1)
  pure (memberWordOrder.filter words.contains)

/-- The value of a field, if it has one, and the end of the field. -/
def fieldValue (g : Grammar) : Parser Tree := do
  let value ←
    if ← eat (· == .assign none) then g (.assignment (Scope.function false false))
    else pure missing
  endStatement
  pure value

/-- A member of a class after its decorators and words. -/
def classMember (g : Grammar) (s : Scope) (ds : Tree) (words : List String) : Parser Tree := do
  let isStatic := words.contains "static"
  let isAccessor := words.contains "accessor"
  let m ← if isAccessor then pure ⟨.plain, false, false⟩ else methodStart
  let key ← memberKey g s
  require (!(isStatic && isKey "prototype" key))
  let mark ← memberMark
  if !isAccessor && (!m.isBare || (← atMark .parenOpen)) then
    let isConstructor := !isStatic && isKey "constructor" key
    require (!isConstructor || m.isBare)
    require (!(words.contains "declare" || words.contains "readonly"))
    let kind := if isConstructor then .constructor else m.kind
    return node (.methodOf kind words mark) [ds, key, ← methodFunction g m]
  require (!isKey "constructor" key)
  return node (.field words mark) [ds, key, ← fieldValue g]

def classMembers (g : Grammar) (s : Scope) : Parser (List Tree) :=
  loop [] fun acc => do
    if ← eatMark .braceClose then pure (.inr acc.reverse)
    else if ← eatMark .semicolon then pure (.inl acc)
    else
      let ds ← decorators g s
      let words ← memberWords
      if ← pure (words == ["static"]) <&&> eatMark .braceOpen then
        require ds.parts.isEmpty
        let body ← statementsToBrace g s.staticBlock
        pure (.inl (node .staticBlock body :: acc))
      else
        let t ← classMember g s ds words
        pure (.inl (t :: acc))

end DefineBundle.Script.Parser
