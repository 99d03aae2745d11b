import DefineBundle.Script.Grammar.Expression

/-!
# Import and export

The names that a script takes from modules and gives to them. A script may hold such statements
wherever it holds others. Declarations of types are read where they are exported.
-/
namespace DefineBundle.Script.Parser

open DefineBundle.Script.Tree

def moduleName : Parser Tree := do
  match ← token with
  | .string v l _ =>
      advance
      pure (leaf (.string v l))
  | _ => failure

def externalName : Parser ExternalName := do
  match ← token with
  | .name n _ =>
      advance
      pure ⟨n, false⟩
  | .string v loneSurrogates _ =>
      require (!loneSurrogates)
      advance
      pure ⟨v, true⟩
  | _ => failure

def importAttribute : Parser Tree := do
  let key ← match ← token with
    | .name n _ =>
        advance
        pure (leaf (.keyName n))
    | _ => moduleName
  expectMark .colon
  return node .importAttribute [key, ← moduleName]

def attributeKey : Tree → String
  | node .importAttribute (node (.keyName n) _ :: _) => n
  | node .importAttribute (node (.string v _) _ :: _) => v
  | _ => ""

/-- Attributes behind their word; each key stands once. -/
def attributesBehind (isAssertion : Bool) : Parser Tree := do
  advance
  expectMark .braceOpen
  let entries ← commaSeparated .braceClose importAttribute
  require (decide (entries.map attributeKey).Nodup)
  pure (node (.importAttributes isAssertion) entries)

/-- The attributes of a module, if it has any. -/
def importAttributes : Parser Tree := do
  if ← atWord "with" then attributesBehind false
  else if (← atWord "assert") && !(← isFresh) then attributesBehind true
  else pure missing

/-- A module and its attributes at the end of a statement. -/
def moduleEnd : Parser (List Tree) := do
  let name ← moduleName
  let attributes ← importAttributes
  endStatement
  pure [name, attributes]

/-- The word `type` before a name, which is passed. -/
def typeWord : Parser Bool := do
  if ← atWord "type" then
    let isWord := match ← followingToken with
      | .name n _ => n != "as"
      | .string _ _ _ => true
      | _ => false
    if isWord then advance
    pure isWord
  else pure false

/-- The local name of something that is imported. -/
def importedAs : Parser String := do
  let n ← anyName
  require (!reservedWords.contains n && n != "await" && n != "yield")
  pure n

def importSpecifier : Parser Tree := do
  let isType ← typeWord
  match ← token, ← followingToken with
  | .name n _, next =>
      if next.isWord "as" then
        advance
        advance
        return leaf (.importName isType ⟨n, false⟩ (← importedAs))
      else return leaf (.importName isType ⟨n, false⟩ (← importedAs))
  | _, _ =>
      let imported ← externalName
      expectWord "as"
      return leaf (.importName isType imported (← importedAs))

/-- Imported names in braces, or a whole module. -/
def importClause (s : Scope) : Parser (List Tree) := do
  if ← eatMark .braceOpen then commaSeparated .braceClose importSpecifier
  else
    require (← eat (· == .operator .mul))
    expectWord "as"
    return [leaf (.importAll (← variableName s))]

/-- Whether the name of a default follows, and not the word before the name of the module. -/
def namesDefault (n : Cursor) : Bool :=
  match n.token with
  | .name w _ =>
      w != "from" || ((moved n false n.rest).map fun n => n.token.isWord "from").getD false
  | _ => false

/-- How a module is imported by a word before the given position. -/
def modeBefore (n : Cursor) : Token → Option ImportMode
  | .name "source" false => if namesDefault n then some .source else none
  | .name "defer" false => if n.token == .operator .mul then some .deferred else none
  | .name "type" false =>
      if namesDefault n || n.token == .operator .mul || n.token.isMark .braceOpen then some .types
      else none
  | _ => none

/-- The word that says how a module is imported, which is passed. -/
def importMode : Parser (Option ImportMode) := do
  let t ← token
  let mode := (← following).bind fun n => modeBefore n t
  if mode.isSome then advance
  pure mode

/-- What an imported name stands for, behind its sign. -/
def importAlias (name : String) : Parser Tree := do
  let target ←
    if (← atWord "require") && (← followingToken).isMark .parenOpen then
      advance
      advance
      let module ← moduleName
      expectMark .parenClose
      pure (node .required [module])
    else (leaf ∘ .typeName) <$> dottedName
  endStatement
  pure (node (.importAlias name) [target])

/-- An import behind its word. A name right before the name of a module has no effect. -/
def importBehind (s : Scope) : Parser Tree := do
  let mode ← importMode
  match ← token with
  | .string _ _ _ => return node (.importFrom none true) (← moduleEnd)
  | .name _ _ =>
      let name ← variableName s
      match ← token with
      | .string _ _ _ => return node (.importFrom none true) (← moduleEnd)
      | .assign none =>
          advance
          importAlias name
      | _ =>
          let others ← if ← eatMark .comma then importClause s else pure []
          expectWord "from"
          return node (.importFrom mode false)
            ((← moduleEnd) ++ leaf (.importDefault name) :: others)
  | _ =>
      let names ← importClause s
      expectWord "from"
      return node (.importFrom mode false) ((← moduleEnd) ++ names)

def importStatement (s : Scope) : Parser Tree := do
  advance
  importBehind s

/-- A name that is exported, with the name it is exported by. -/
def exportSpecifier : Parser Tree := do
  let isType ← typeWord
  let name ← externalName
  if ← eatWord "as" then return leaf (.exportName isType name (← externalName))
  else pure (leaf (.exportName isType name name))

/-- Words that are not exported as names of the script itself. -/
def strictWords : List String :=
  ["await", "yield", "implements", "interface", "let", "package", "private", "protected", "public",
    "static"]

/-- Whether a name may be exported as one of the script itself. -/
def isOwnName : Tree → Bool
  | node (.exportName _ name _) _ =>
      !name.isQuoted && !reservedWords.contains name.text && !strictWords.contains name.text
  | _ => false

def exportedNames (isType : Bool) : Parser Tree := do
  let names ← commaSeparated .braceClose exportSpecifier
  if ← eatWord "from" then return node (.exportNames isType) ((← moduleEnd) ++ names)
  else
    require (names.all isOwnName)
    endStatement
    pure (node (.exportNames isType) (missing :: missing :: names))

/-- All that a module exports, behind the star. -/
def exportedAll (isType : Bool) : Parser Tree := do
  let name ← if ← eatWord "as" then some <$> externalName else pure none
  expectWord "from"
  return node (.exportAll isType name) (← moduleEnd)

/-- A default export behind its word, with the decorators in front of it. -/
def exportedDefault (g : Grammar) (s : Scope) (ds : Tree) : Parser Tree := do
  match ← functionStart with
  | some isAsync =>
      require ds.parts.isEmpty
      if isAsync then advance
      return node .exportDefault [← functionExpression g isAsync]
  | none =>
      let ds ← if ← atMark .atSign then decorators g s else pure ds
      if (← atWord "class") || !ds.parts.isEmpty then
        return node .exportDefault [← classFrom g s ds]
      else
        let e ← g (.assignment s)
        endStatement
        pure (node .exportDefault [e])

def typeTitle : Parser String := do
  advance
  anyName

def typeAlias (g : Grammar) (s : Scope) : Parser Tree := do
  let name ← typeTitle
  require (← eat (· == .assign none))
  let t ← g (.type s)
  endStatement
  pure (node (.typeAlias name) [t])

def interface (g : Grammar) (s : Scope) : Parser Tree := do
  let name ← typeTitle
  let parents ← interfaces g s "extends"
  return node (.interface name) [parents, ← objectType g s]

def enumMember (g : Grammar) (s : Scope) : Parser Tree := do
  let key ← match ← token with
    | .number _ | .bigInt _ => failure
    | _ => propertyKey g s
  let value ←
    if ← eat (· == .assign none) then g (.assignment s.bracketed) else pure missing
  pure (node .enumMember [key, value])

def enumeration (g : Grammar) (s : Scope) (isConst : Bool) : Parser Tree := do
  let name ← typeTitle
  expectMark .braceOpen
  return node (.enumeration isConst name) (← commaSeparated .braceClose (enumMember g s))

/-- A namespace, given the reader of its body. -/
def namespaceOf (g : Grammar) (s : Scope) (word : String) : Parser Tree := do
  advance
  let name ← match ← token with
    | .string v _ _ =>
        advance
        pure ⟨v, true⟩
    | _ => (fun path => ⟨path, false⟩) <$> dottedName
  return node (.namespaceOf word name) [← functionBody g s]

/-- Whether a name stands here, on the line of the word before it. -/
def namesOnLine (n : Cursor) : Bool :=
  match n.token with
  | .name _ _ => !n.gap.isFresh
  | _ => false

def isText : Token → Bool
  | .string _ _ _ => true
  | _ => false

/-- A declaration of a type or of what a type needs, if one starts here. -/
def exportedType (g : Grammar) (s : Scope) : Parser (Option Tree) := do
  let next ← following
  let isNamed := next.any namesOnLine
  match ← token with
  | .name "type" false => if isNamed then some <$> typeAlias g s else pure none
  | .name "interface" false => if isNamed then some <$> interface g s else pure none
  | .name "enum" false => some <$> enumeration g s false
  | .name "const" false =>
      if next.any fun n => n.token.isWord "enum" then
        advance
        some <$> enumeration g s true
      else pure none
  | .name "namespace" false => if isNamed then some <$> namespaceOf g s "namespace" else pure none
  | .name "module" false =>
      if isNamed || next.any fun n => isText n.token then some <$> namespaceOf g s "module"
      else pure none
  | .name "import" false =>
      advance
      some <$> importBehind s
  | _ => pure none

/-- Whether a statement declares something that can be exported. -/
def isExportable : Tree → Bool
  | node (.declaration _) _ | node (.function _ _ _) _ | node .classOf _ => true
  | node (.typeAlias _) _ | node (.interface _) _ | node (.enumeration _ _) _ => true
  | node (.namespaceOf _ _) _ | node (.importAlias _) _ => true
  | _ => false

/-- An exported declaration, with the decorators in front of it. -/
def exportedDeclaration (g : Grammar) (s : Scope) (ds : Tree) : Parser Tree := do
  let t ←
    if !ds.parts.isEmpty then classFrom g s ds
    else match ← exportedType g s with
      | some t => pure t
      | none => g (.statement s true)
  require (isExportable t)
  pure (node .exportDeclaration [t])

/-- An export from its word on, with the decorators in front of it. -/
def exportStatement (g : Grammar) (s : Scope) (ds : Tree) : Parser Tree := do
  advance
  let isNamed ← atWord "type"
  let next ← followingToken
  let isType := isNamed && (next.isMark .braceOpen || next == .operator .mul)
  if ← eatWord "default" then exportedDefault g s ds
  else if !ds.parts.isEmpty then exportedDeclaration g s ds
  else
    if isType then advance
    if ← eatMark .braceOpen then exportedNames isType
    else if ← eat (· == .operator .mul) then exportedAll isType
    else exportedDeclaration g s (← if ← atMark .atSign then decorators g s else pure ds)

end DefineBundle.Script.Parser
