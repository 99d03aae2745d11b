import DefineBundle.Script.Grammar.Function

/-!
# Types

Exported declarations may speak of types: names with arguments, literals, arrays and tuples,
functions, objects, and what words and joining signs make of them. Parameters have no types of their
own. Types have no effect; they are read to be written again.
-/
namespace DefineBundle.Script.Parser

open DefineBundle.Script.Tree

def dottedName : Parser String := do
  loop (← anyName) fun path => do
    if ← eatMark .dot then return .inl (path ++ "." ++ (← anyName))
    else pure (.inr path)

/-- Moves past one closing angle bracket, which may be the first of several. -/
def closeAngle : Parser Bool := do
  match ← look Cursor.here with
  | '>' :: rest =>
      resume rest
      pure true
  | _ => pure false

/-- Items between angle brackets, if there are any. -/
def angled (item : Parser Tree) : Parser (List Tree) := do
  if ← eat (· == .operator .less) then
    loop [] fun acc => do
      if ← closeAngle then pure (.inr acc.reverse)
      else
        let t ← item
        if ← eatMark .comma then pure (.inl (t :: acc))
        else
          require (← closeAngle)
          pure (.inr (t :: acc).reverse)
  else pure []

def typeReference (g : Grammar) (s : Scope) : Parser Tree := do
  let path ← dottedName
  return node (.typeName path) (← angled (g (.type s)))

/-- The type behind a word or mark, if that is there. -/
def typeBehind (g : Grammar) (s : Scope) (isThere : Bool) : Parser Tree :=
  if isThere then g (.type s) else pure missing

/-- The type of a function from its parameters on. -/
def functionType (g : Grammar) (s : Scope) (isConstructor : Bool) : Parser Tree := do
  let ps ← parameters g s
  expectMark .arrow
  return node (.functionType isConstructor) [ps, ← g (.type s)]

/-- The parameters and the result of a method. -/
def methodType (g : Grammar) (s : Scope) (kind : MethodKind) (isOptional : Bool) (key : Tree) :
    Parser Tree := do
  let ps ← parameters g s
  return node (.methodType kind isOptional) [key, ps, ← typeBehind g s (← eatMark .colon)]

/-- The words before the key of a member of an object type, which are passed. -/
def signatureWords : Parser (Bool × MethodKind) := do
  let isReadonly := (← atWord "readonly") && startsKey (← followingToken)
  if isReadonly then advance
  let m ← methodStart
  require (!(m.isAsync || m.isGenerator))
  pure (isReadonly, m.kind)

/-- Whether a name and a colon stand behind the bracket here. -/
def atIndexType : Parser Bool := do
  if ← atMark .bracketOpen then
    look fun c => ((moved c false c.rest).bind fun n =>
      match n.token with
      | .name _ _ => (moved n false n.rest).map fun n => n.token.isMark .colon
      | _ => none).getD false
  else pure false

def typeMember (g : Grammar) (s : Scope) : Parser Tree := do
  if ← atMark .parenOpen then methodType g s .plain false missing
  else if (← atWord "new") && (← followingToken).isMark .parenOpen then
    advance
    methodType g s .constructor false missing
  else
    let (isReadonly, kind) ← signatureWords
    if ← atIndexType then
      advance
      let name ← anyName
      expectMark .colon
      let key ← g (.type s)
      expectMark .bracketClose
      expectMark .colon
      return node (.indexType isReadonly name) [key, ← g (.type s)]
    else
      let key ← propertyKey g s
      let isOptional ← eatMark .question
      if ← atMark .parenOpen then methodType g s kind isOptional key
      else
        return node (.fieldType isReadonly isOptional) [key, ← typeBehind g s (← eatMark .colon)]

def objectType (g : Grammar) (s : Scope) : Parser Tree := do
  expectMark .braceOpen
  loop [] fun acc => do
    if ← eatMark .braceClose then pure (.inr (node .objectType acc.reverse))
    else
      let t ← typeMember g s
      if ← eatMark .comma then pure (.inl (t :: acc))
      else
        endStatement
        pure (.inl (t :: acc))

def tupleElement (g : Grammar) (s : Scope) : Parser Tree := do
  if ← eatMark .ellipsis then return node .rest [← g (.type s)]
  else
    match ← token, ← followingToken with
    | .name n _, .mark .colon =>
        advance
        advance
        return node (.tupleElement (some n) false) [← g (.type s)]
    | _, _ =>
        let t ← g (.type s)
        if ← eatMark .question then pure (node (.tupleElement none true) [t]) else pure t

/-- A type between parentheses, or the type of a function. -/
def groupedType (g : Grammar) (s : Scope) : Parser Tree := do
  match ← attempt (functionType g s false) with
  | some t => pure t
  | none =>
      expectMark .parenOpen
      let t ← g (.type s)
      expectMark .parenClose
      pure (node .groupedType [t])

def typeWords : List String :=
  ["keyof", "unique", "readonly", "infer", "typeof"]

/-- Whether a token can start the type behind a word. -/
def startsType : Token → Bool
  | .name _ _ | .string _ _ _ | .number _ => true
  | t => t.isMark .braceOpen || t.isMark .bracketOpen || t.isMark .parenOpen

/-- A type without joining signs or brackets behind it. -/
def primaryType (g : Grammar) (s : Scope) : Parser Tree := do
  match ← token with
  | .mark .parenOpen => groupedType g s
  | .mark .braceOpen => objectType g s
  | .mark .bracketOpen =>
      advance
      return node .tupleType (← commaSeparated .bracketClose (tupleElement g s))
  | .number _ | .string _ _ _ | .bigInt _ | .operator .sub | .mark .backquote =>
      return node .literalType [← g (.unary s)]
  | _ => typeReference g s

/-- A type with the brackets behind it, on its line. -/
def bracketedType (g : Grammar) (s : Scope) : Parser Tree := do
  loop (← primaryType g s) fun t => do
    if ← (not <$> isFresh) <&&> eatMark .bracketOpen then
      if ← eatMark .bracketClose then pure (.inl (node .arrayType [t]))
      else
        let key ← g (.type s)
        expectMark .bracketClose
        pure (.inl (node .indexedType [t, key]))
    else pure (.inr t)

/-- A type behind the words in front of it, the outermost first. -/
def wordedType (g : Grammar) (s : Scope) : Parser Tree := do
  let words ← loop [] fun acc => do
    match ← token, ← followingToken with
    | .name n false, next =>
        if typeWords.contains n && startsType next then
          advance
          pure (.inl (n :: acc))
        else pure (.inr acc)
    | _, _ => pure (.inr acc)
  return words.foldl (fun t w => node (.typeOperator w) [t]) (← bracketedType g s)

/-- Types with a sign between them, which may also stand in front. -/
def joinedType (isAll : Bool) (sign : BinaryOp) (item : Parser Tree) : Parser Tree := do
  let isLed ← eat (· == .operator sign)
  let first ← item
  loop [first] fun acc => do
    if ← eat (· == .operator sign) then return .inl ((← item) :: acc)
    else match acc with
      | [t] => if isLed then pure (.inr (node (.joinedType isAll) [t])) else pure (.inr t)
      | _ => pure (.inr (node (.joinedType isAll) acc.reverse))

def type (g : Grammar) (s : Scope) : Parser Tree := do
  if (← atWord "new") && (← followingToken).isMark .parenOpen then
    advance
    functionType g s true
  else
    let t ← joinedType false .bitOr (joinedType true .bitAnd (wordedType g s))
    if ← (not <$> isFresh) <&&> eatWord "extends" then
      let bound ← g (.type s)
      expectMark .question
      let a ← g (.type s)
      expectMark .colon
      let b ← g (.type s)
      pure (node .conditionalType [t, bound, a, b])
    else pure t

end DefineBundle.Script.Parser
