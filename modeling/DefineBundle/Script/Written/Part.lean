import DefineBundle.Script.Written.Place

/-!
# Parts of a printed script

The words and marks of declarations, members and modules, and the tests on trees that printing goes
by. None of them prints an expression; where one is needed, its pieces are given.
-/
namespace DefineBundle.Script.Print

open DefineBundle.Script.Tree

/-- Pieces between parentheses, if they are needed. -/
def wrap (isNeeded : Bool) (ps : List Piece) : List Piece :=
  if isNeeded then .text "(" :: ps ++ [.text ")"] else ps

/-- A number, whose infinite value is a quotient in compact text. -/
def numeral (style : Style) (strength : Strength) : Numeral → List Piece
  | .infinite =>
      match style with
      | .readable => [.word "Infinity"]
      | .compact => wrap (decide (Strength.multiply ≤ strength)) [.word "1/0"]
  | .finite d e =>
      let cs := Numeral.text d e
      let s := String.ofList cs
      if cs.any (fun c => c == '.' || c == 'e' || c == 'x') then [.word s] else [.whole s]

/-- Whether a property can be written as its name alone: the name is its key. -/
def isShort (kind : PropertyKind) (key : String) (value : Tree) : Bool :=
  match value with
  | node (.identifier n) _ => if key == "__proto__" then kind == .shorthand else key == n
  | _ => false

/-- The variable a pattern element is, apart from its default value. -/
def elementName : Tree → Tree
  | node .withDefault (t :: _) => t
  | t => t

/-- The comma and the space between two items. -/
def separator : List Piece :=
  [.text ",", .gap]

/-- The word before the key of a method. -/
def methodWord : PropertyKind → List Piece
  | .getter => [.word "get", .gap]
  | .setter => [.word "set", .gap]
  | _ => []

/-- The word before the key of a member of a class. -/
def memberWord : MethodKind → List Piece
  | .getter => [.word "get", .gap]
  | .setter => [.word "set", .gap]
  | _ => []

/-- The marks of an asynchronous or generating method before its key. -/
def functionMarks (isAsync isGenerator : Bool) : List Piece :=
  (if isAsync then [.word "async", .gap] else []) ++ (if isGenerator then [.text "*"] else [])

/-- The words and marks before the key of a property with the given value. -/
def propertyStart (kind : PropertyKind) (value : Tree) : List Piece :=
  match kind, value with
  | .plain, _ => []
  | .shorthand, _ => []
  | _, node (.function isAsync isGenerator _) _ =>
      methodWord kind ++ functionMarks isAsync isGenerator
  | _, _ => methodWord kind

/-- The words before the key of a class member. -/
def memberWords (words : List String) (key : Tree) : List Piece :=
  words.flatMap fun w =>
    [.word w, if w == "accessor" && key.form != .computedKey then .space else .gap]

/-- Whether a key is the plain name of a variable. -/
def keyNames : Tree → Tree → Bool
  | node (.keyName k) _, node (.identifier n) _ => k == n
  | _, _ => false

/-- Whether a property of an object literal is written as its name alone. -/
def isShortProperty (kind : PropertyKind) (key value : Tree) : Bool :=
  match key with
  | node (.keyName k) _ => isShort kind k value.unparenthesized
  | _ => false

def functionHead (isAsync isGenerator : Bool) (name : Tree) : List Piece :=
  (if isAsync then [.word "async", .space] else []) ++ .word "function" ::
    (if isGenerator then [.text "*", .gap] else []) ++
    match name with
    | node (.identifier n) _ => [.word n]
    | _ => []

/-- The words of a class up to its superclass. -/
def classHead (name : Tree) : List Piece :=
  .word "class" ::
    match name with
    | node (.identifier n) _ => [.space, .word n]
    | _ => []

/-- A word with the parts behind it, if there are any. -/
def clause (word : String) (isMissing : Bool) (ps : List Piece) : List Piece :=
  if isMissing then [] else [.space, .word word, .space] ++ ps

/-- Lines between braces, or an empty pair of braces. -/
def braced (depth : Nat) (isEmpty : Bool) (lines : List Piece) : List Piece :=
  if isEmpty then [.text "\x7b\x7d"]
  else [.text "\x7b", .newline] ++ lines ++ [.indent depth, .closeBlock]

def caseLabel (test : Tree) (ps : List Piece) : List Piece :=
  if test.isMissing then [.word "default", .text ":"]
  else [.word "case", .gap] ++ ps ++ [.text ":"]

/-- A first statement that is a string, between parentheses. -/
def shieldedString (style : Style) : Tree → List Piece
  | node .expression [t] =>
      match t.unparenthesized with
      | node (.string v l) _ =>
          [.text "(", .text (Written.stringLiteral style true l v), .text ")", .statementEnd]
      | _ => []
  | _ => []

/-- The key of a property or member, given as an expression. A string that is all of a key never
becomes a template, not even between brackets. -/
def keyText (style : Style) (key : Tree) (ps : List Piece) : List Piece :=
  match key with
  | node (.string v l) _ => [.text (Written.stringLiteral style false l v)]
  | node .computedKey [node (.string v l) _] =>
      [.text "[", .text (Written.stringLiteral style false l v), .text "]"]
  | _ => ps

/-- The key of a property of an object literal. An infinite number that has a value beside it stands
between brackets. -/
def propertyKey (style : Style) (kind : PropertyKind) (key : Tree) (ps : List Piece) :
    List Piece :=
  match kind, key with
  | .plain, node (.number .infinite) _ => .text "[" :: ps ++ [.text "]"]
  | _, _ => keyText style key ps

/-- Whether a property holds a function as its method. -/
def isMethod : PropertyKind → Bool
  | .plain | .shorthand => false
  | _ => true

/-- Whether a body would take over an `else` that follows it. -/
def takesElse : Tree → Bool
  | node .ifElse [_, _] => true
  | node .ifElse [_, _, other] => takesElse other
  | node .forLoop [_, _, _, body] => takesElse body
  | node .forIn [_, _, body] => takesElse body
  | node (.forOf _) [_, _, body] => takesElse body
  | node .whileLoop [_, body] => takesElse body
  | node .withObject [_, body] => takesElse body
  | node (.labeled _) [body] => takesElse body
  | _ => false

/-- Whether a first statement would be read as a directive. -/
def looksLikeDirective : List Tree → Bool
  | node .expression [t] :: _ =>
      match t.unparenthesized with
      | node (.string _ _) _ => true
      | _ => false
  | _ => false

/-- Whether parentheses keep a first statement from becoming a directive; compact text spells such
a string otherwise. -/
def shieldsFirst (style : Style) (ds : List String) (ts : List Tree) : Bool :=
  style == .readable && ds.isEmpty && looksLikeDirective ts

def directives (depth : Nat) (ds : List String) : List Piece :=
  ds.flatMap fun raw => [.indent depth, .text (Written.directive raw), .text ";", .newline]

def external (style : Style) (n : ExternalName) : Piece :=
  if n.isQuoted then .text (Written.stringLiteral style false false n.text) else .word n.text

/-- A name with the local or exported name that differs from it. -/
def renamed (style : Style) (isType : Bool) (outer inner : ExternalName) : List Piece :=
  (if isType then [.word "type", .space] else []) ++ external style outer ::
    if outer.text == inner.text then []
    else [.space, .word "as", .space, external style inner]

/-- A string literal as it stands where no template can. -/
def plainString (style : Style) : Tree → List Piece
  | node (.string v l) _ => [.text (Written.stringLiteral style false l v)]
  | node (.keyName n) _ => [.word n]
  | _ => []

/-- The attributes of a module between their braces. -/
def attributeList (style : Style) : Bool → List Tree → List Piece
  | isFirst, node .importAttribute [key, value] :: ts =>
      (if isFirst then [.gap] else separator) ++ plainString style key ++ [.text ":", .gap] ++
        plainString style value ++ attributeList style false ts
  | isFirst, _ => if isFirst then [] else [.gap]

/-- The attributes of a module behind its name. -/
def attributes (style : Style) : Tree → List Piece
  | node (.importAttributes isAssertion) ts =>
      [.gap, .word (if isAssertion then "assert" else "with"), .gap, .text "\x7b"] ++
        attributeList style true ts ++ [.text "\x7d"]
  | _ => []

def moduleText (style : Style) (name attrs : Tree) : List Piece :=
  .gap :: plainString style name ++ attributes style attrs ++ [.statementEnd]

/-- The same behind an empty list of names, where the name of the module is not escaped. -/
def rawModuleText (style : Style) (name attrs : Tree) : List Piece :=
  let raw := match name with
    | node (.string v _) _ => v
    | _ => ""
  [.gap, .text ("\"" ++ raw ++ "\"")] ++ attributes style attrs ++ [.statementEnd]

/-- Imported or exported names between braces, up to the first that is no such name. -/
def namesInBraces (style : Style) : Bool → List Tree → List Piece
  | isFirst, node (.importName isType outer inner) _ :: ts =>
      (if isFirst then [.gap] else separator) ++ renamed style isType outer ⟨inner, false⟩ ++
        namesInBraces style false ts
  | isFirst, node (.exportName isType inner outer) _ :: ts =>
      (if isFirst then [.gap] else separator) ++ renamed style isType inner outer ++
        namesInBraces style false ts
  | _, _ => [.gap]

def names (style : Style) (ts : List Tree) : List Piece :=
  .text "\x7b" :: (if ts.isEmpty then [] else namesInBraces style true ts) ++ [.text "\x7d"]

/-- The specifiers of an import up to the module's name. -/
def importClause (style : Style) : List Tree → List Piece
  | [] => [.gap, .text "\x7b\x7d", .gap, .word "from"]
  | node (.importDefault n) _ :: [] => [.space, .word n, .space, .word "from"]
  | node (.importDefault n) _ :: node (.importAll m) _ :: _ =>
      [.space, .word n] ++ separator ++
        [.text "*", .gap, .word "as", .space, .word m, .space, .word "from"]
  | node (.importDefault n) _ :: ts =>
      [.space, .word n, .text ",", .gap] ++ names style ts ++ [.gap, .word "from"]
  | node (.importAll m) _ :: _ =>
      [.gap, .text "*", .gap, .word "as", .space, .word m, .space, .word "from"]
  | ts => .gap :: names style ts ++ [.gap, .word "from"]

def modeWord : ImportMode → String
  | .source => "source"
  | .deferred => "defer"
  | .types => "type"

/-- The word that says how a module is imported. -/
def importMode : Option ImportMode → List Piece
  | none => []
  | some m => [.space, .word (modeWord m)]

def importText (style : Style) (mode : Option ImportMode) (isBare : Bool) :
    List Tree → List Piece
  | name :: attrs :: ts =>
      .word "import" :: importMode mode ++
        (if isBare then moduleText style name attrs
        else importClause style ts ++
          if ts.isEmpty then rawModuleText style name attrs else moduleText style name attrs)
  | _ => []

/-- The end of an export: the module that the names come from, if there is one. -/
def exportedFrom (style : Style) (name attrs : Tree) : List Piece :=
  if name.isMissing then [.statementEnd]
  else [.gap, .word "from"] ++ moduleText style name attrs

def typeWord (isType : Bool) : List Piece :=
  if isType then [.space, .word "type"] else []

def exportAllText (style : Style) (isType : Bool) (name : Option ExternalName) :
    List Tree → List Piece
  | [module, attrs] =>
      .word "export" :: typeWord isType ++ [.gap, .text "*"] ++
        (match name with
          | none => [.gap]
          | some n => [.space, .word "as", .space, external style n, .space]) ++
        .word "from" :: moduleText style module attrs
  | _ => []

def exportNamesText (style : Style) (isType : Bool) : List Tree → List Piece
  | module :: attrs :: ts =>
      .word "export" :: typeWord isType ++ .gap :: names style ts ++ exportedFrom style module attrs
  | _ => []

def pureComment (isPure : Bool) : List Piece :=
  if isPure then [.text "/* @__PURE__ */ "] else []

/-- The comment in front of a function without effects. -/
def effectComment (isEffectFree : Bool) : List Piece :=
  if isEffectFree then [.text "/* @__NO_SIDE_EFFECTS__ */ "] else []

def effectLine (isEffectFree : Bool) : List Piece :=
  if isEffectFree then [.text "/* @__NO_SIDE_EFFECTS__ */\n"] else []

/-- Whether a statement is a function without effects. -/
def isEffectFree : Tree → Bool
  | node (.function _ _ isEffectFree) _ => isEffectFree
  | _ => false

/-- Where a statement stands: on a line of its own, as the body of a head, as a body after which the
head goes on, after the word `else`, or on the line of an export. -/
inductive Footing
  | ownLine | headed | followed | afterElse | exported
  deriving DecidableEq, Repr

def Footing.lead (f : Footing) (depth : Nat) : List Piece :=
  match f with
  | .ownLine => [.indent depth]
  | .headed | .followed => [.gap]
  | .afterElse => [.space]
  | .exported => []

def Footing.leadBlock (f : Footing) (depth : Nat) : List Piece :=
  match f with
  | .ownLine => [.indent depth]
  | _ => [.gap]

def Footing.leadEmpty (f : Footing) (depth : Nat) : List Piece :=
  match f with
  | .ownLine => [.indent depth]
  | _ => []

def Footing.trail (f : Footing) : Piece :=
  match f with
  | .followed => .gap
  | _ => .newline

/-- A part of a statement that may be missing. -/
def optional (t : Tree) (ps : List Piece) : List Piece :=
  if t.isMissing then [] else ps

def isBlock (t : Tree) : Bool :=
  t.form == .block

/-- Whether an exported tree is a function or class. -/
def isDefinition : Tree → Bool
  | node (.function _ _ _) _ => true
  | node .classOf _ => true
  | _ => false

def declarationWords : BindingKind → List Piece
  | .var => [.word "var"]
  | .mutable => [.word "let"]
  | .constant => [.word "const"]
  | .resource => [.word "using"]
  | .asyncResource => [.word "await", .space, .word "using"]

/-- Whether an expression statement is the name `let`, after which the line goes on. -/
def isLet (t : Tree) : Bool :=
  match t.unparenthesized with
  | node (.identifier n) _ => n == "let"
  | _ => false

/-- Whether an expression is the infinite number, which readable text does not let `delete` have. -/
def isInfinite : Tree → Bool
  | node (.number .infinite) _ => true
  | _ => false

/-- Whether the left side of a loop is the name `async`, which would be read as a word. -/
def isAsyncName : Tree → Bool
  | node (.identifier n) _ => n == "async"
  | _ => false

/-- Whether a decorator needs no parentheses: names with dots, and a call of such. -/
def isDecoratorName : Tree → Bool
  | node (.identifier _) _ => true
  | node (.member _ _) _ => true
  | node (.privateMember _ _) _ => true
  | node (.call _ _) (callee :: _) => isDecoratorName callee
  | _ => false

def markText : MemberMark → List Piece
  | .bare => []
  | .optional => [.text "?"]
  | .definite => [.text "!"]

/-- The mark of something that may be missing. -/
def optionalMark (isOptional : Bool) : List Piece :=
  if isOptional then [.text "?"] else []

/-- The word of a member that cannot be changed. -/
def readonlyWord (isReadonly : Bool) : List Piece :=
  if isReadonly then [.word "readonly", .space] else []

/-- Pieces between angle brackets, unless there are none. -/
def angled (isEmpty : Bool) (ps : List Piece) : List Piece :=
  if isEmpty then [] else .text "<" :: ps ++ [.text ">"]

/-- A type behind a colon, unless it is missing. -/
def annotation (type : Tree) (ps : List Piece) : List Piece :=
  if type.isMissing then [] else [.text ":", .gap] ++ ps

/-- What an imported name stands for: a module, or a name whose pieces are given. -/
def requiredText (style : Style) (target : Tree) (ps : List Piece) : List Piece :=
  match target with
  | node .required [module] =>
      [.word "require", .text "("] ++ plainString style module ++ [.text ")"]
  | _ => ps

def joint (isAll : Bool) : List Piece :=
  [.gap, .text (if isAll then "&" else "|"), .gap]

/-- The word of a statement with the label it jumps to. -/
def jump (word : String) : Option String → List Piece
  | none => [.word word, .statementEnd]
  | some label => [.word word, .gap, .word label, .statementEnd]

/-- The head of a statement with one expression. -/
def head (word : String) (isSpaced : Bool) (e : List Piece) : List Piece :=
  .word word :: (if isSpaced then [.gap] else []) ++ .text "(" :: e ++ [.text ")"]

end DefineBundle.Script.Print
