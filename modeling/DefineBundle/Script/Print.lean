import DefineBundle.Script.Written.Part

/-!
# Printing of scripts

A tree as pieces of text, readable or compact. Parentheses of the source are not kept; they are
written where the strength of operators asks for them, and around an expression whose first
character would begin a statement. Lists of more than one property or more than two elements are
written one per line in readable text. What a comment of the source said about a call or a function
is said again.
-/
namespace DefineBundle.Script.Print

open DefineBundle.Script.Tree

mutual

def expr (style : Style) : Tree → Place → List Piece
  | node (.identifier n) _, _ => [.word n]
  | node (.privateName n) _, _ => [.text ("#" ++ n)]
  | node (.keyName n) _, _ => [.word n]
  | node .computedKey [key], p =>
      .text "[" :: expr style key (.inner Strength.comma p.depth) ++ [.text "]"]
  | node .thisRef _, _ => [.word "this"]
  | node .superRef _, _ => [.word "super"]
  | node .nullLiteral _, _ => [.word "null"]
  | node (.boolean b) _, _ => [.word (if b then "true" else "false")]
  | node (.number v) _, p => numeral style p.strength v
  | node (.bigInt d) _, _ => [.word (d ++ "n")]
  | node (.string v l) _, _ => [.text (Written.stringLiteral style true l v)]
  | node (.regex pattern flags) _, _ => [.regex pattern flags]
  | node (.template chunks) es, p => .text "`" :: substitutions style p.depth chunks es
  | node (.metaProperty a b) _, _ => [.word a, .text ("." ++ b)]
  | node .array es, p =>
      if es.length ≤ 2 then .text "[" :: inlineElements style p.depth true es ++ [.text "]"]
      else .text "[" :: lineElements style (p.depth + 1) true es ++
        [.newline, .indent p.depth, .text "]"]
  | node .object ps, p =>
      let needsWrap := p.startsBlock
      let one := match ps with
        | [] => []
        | [_] => .gap :: lineProperties style p.toLevel false true ps ++ [.gap]
        | _ => lineProperties style p.deeper true true ps ++ [.newline, .indent p.depth]
      wrap needsWrap (.text "\x7b" :: one ++ [.text "\x7d"])
  | node (.spread _) [e], p => .text "..." :: expr style e (.inner Strength.comma p.depth)
  | node (.function isAsync isGenerator isEffectFree) [name, ps, body], p =>
      wrap p.startsDeclaration
        (effectComment isEffectFree ++ functionHead isAsync isGenerator name ++ .text "(" ::
          expr style ps (.inner Strength.comma p.depth) ++ [.text ")", .gap] ++
          functionBody style p.toLevel body)
  | node (.arrow isAsync isConcise isEffectFree) [ps, body], p =>
      let single := match style, ps with
        | .compact, node _ [node (.identifier _) _] => true
        | _, _ => false
      wrap (decide (Strength.assign ≤ p.strength))
        (effectComment isEffectFree ++ (if isAsync then [.word "async", .gap] else []) ++
          wrap (!single) (expr style ps (.inner Strength.comma p.depth)) ++
            [.gap, .text "=>", .gap] ++
          (if isConcise then conciseBody style p body else functionBody style p.toLevel body))
  | node .parameters ps, p => commaList style p.depth ps
  | node .decorators ds, p => decoratorList style p.depth ds
  | node .decorated [ds, e], p =>
      expr style ds (.inner Strength.lowest p.depth) ++ expr style e (.inner Strength.comma p.depth)
  | node .classOf (ds :: name :: superclass :: claims :: members), p =>
      wrap p.startsDeclaration
        (expr style ds (.inner Strength.lowest p.depth) ++ classHead name ++
          clause "extends" superclass.isMissing
            (expr style superclass (.inner Strength.postfixed p.depth)) ++
          clause "implements" claims.parts.isEmpty
            (expr style claims (.inner Strength.lowest p.depth)) ++
          .gap :: braced p.depth members.isEmpty (classMembers style p.deeper members))
  | node (.unary op) [e], p =>
      wrap (decide (Strength.prefixed ≤ p.strength))
        (op.pieces ++
          if op == .delete && style == .readable && isInfinite e then
            [.text "(0,", .gap, .word "Infinity", .text ")"]
          else expr style e (p.later Strength.power))
  | node (.update op true) [e], p =>
      wrap (decide (Strength.prefixed ≤ p.strength))
        (.sign op.text :: expr style e (.inner Strength.lowest p.depth))
  | node (.update op false) [e], p =>
      let needsWrap := decide (Strength.postfixed ≤ p.strength)
      wrap needsWrap
        (.beforeOperand op.text ::
          expr style e ((p.opened needsWrap).first Strength.lowest) ++ [.sign op.text])
  | node (.privateIn n) [e], p =>
      wrap (decide (Strength.comparison ≤ p.strength))
        (.text ("#" ++ n ++ " in ") :: expr style e ⟨p.loopHead, Strength.equality, .inner⟩)
  | node (.binary op) [l, r], p =>
      let needsWrap := decide (op.strength ≤ p.strength) || (op == .inside && p.bansIn)
      let q := p.opened needsWrap
      let q := if needsWrap then { q with bansIn := false } else q
      wrap needsWrap
        (expr style l { q with strength := op.leftPlace l } ++ [.gap, op.piece, .gap] ++
          expr style r ⟨⟨p.depth, q.bansIn, false⟩, op.rightPlace r, .inner⟩)
  | node (.assign op) [target, value], p =>
      let isPattern := match target with
        | node (.objectPattern _) _ => p.startsBlock
        | _ => false
      let needsWrap := isPattern || decide (Strength.assign ≤ p.strength)
      let sign := match op with
        | none => "="
        | some op => op.text ++ "="
      wrap needsWrap
        (expr style target ((p.opened needsWrap).first Strength.lowest) ++
          [.gap, .text sign, .gap] ++ expr style value (p.later Strength.comma))
  | node .conditional [test, a, b], p =>
      let needsWrap := decide (Strength.conditional ≤ p.strength)
      let q := p.opened needsWrap
      let bansIn := p.bansIn && !needsWrap
      wrap needsWrap
        (expr style test ⟨⟨p.depth, bansIn, false⟩, Strength.conditional, q.start⟩ ++
          [.gap, .text "?", .gap] ++ expr style a (.inner Strength.yielding p.depth) ++
          [.gap, .text ":", .gap] ++
          expr style b ⟨⟨p.depth, bansIn, false⟩, Strength.yielding, .inner⟩)
  | node (.call isOptional isPure) (callee :: args), p =>
      let needsWrap := decide (Strength.construct ≤ p.strength) || p.bansCall ||
        (isPure && decide (Strength.postfixed ≤ p.strength))
      let q := if isPure && p.start == .arrowBody then p.later Strength.postfixed
        else p.first Strength.postfixed
      wrap needsWrap
        (pureComment isPure ++ expr style callee (q.first Strength.postfixed) ++
          (if isOptional then [.text "?."] else []) ++
          .text "(" :: commaList style p.depth args ++ [.text ")"])
  | node (.construct isPure) (callee :: args), p =>
      let hasArguments := style == .readable || !args.isEmpty ||
        decide (Strength.postfixed ≤ p.strength)
      wrap
        (decide (Strength.call ≤ p.strength) ||
          (isPure && decide (Strength.postfixed ≤ p.strength)))
        (pureComment isPure ++ [.word "new", .gap] ++
          expr style callee ⟨⟨p.depth, false, true⟩, Strength.construct, .inner⟩ ++
          (if hasArguments then .text "(" :: commaList style p.depth args ++ [.text ")"] else []))
  | node (.member isOptional n) [e], p =>
      expr style e ⟨⟨p.depth, false, p.bansCall⟩, Strength.postfixed, p.start⟩ ++
        (if isOptional then [.text "?."] else [.dot]) ++ [.text n]
  | node (.privateMember isOptional n) [e], p =>
      expr style e ⟨⟨p.depth, false, p.bansCall⟩, Strength.postfixed, p.start⟩ ++
        [.text (if isOptional then "?.#" else ".#"), .text n]
  | node (.index isOptional) [e, key], p =>
      wrap (isLet e) (expr style e ⟨⟨p.depth, false, p.bansCall⟩, Strength.postfixed, p.start⟩) ++
        (if isOptional then [.text "?."] else []) ++
        .text "[" :: expr style key (.inner Strength.lowest p.depth) ++ [.text "]"]
  | node .chain [e], p =>
      let needsWrap := decide (Strength.postfixed ≤ p.strength)
      wrap needsWrap (expr style e (p.opened needsWrap))
  | node .tagged [tag, t], p =>
      expr style tag (p.first Strength.postfixed) ++
        expr style t (.inner Strength.lowest p.depth)
  | node .sequence es, p =>
      let needsWrap := decide (Strength.comma ≤ p.strength)
      wrap needsWrap
        (sequenceItems style
          { p.opened needsWrap with strength := Strength.lowest, bansCall := false } es)
  | node .parens [e], p => expr style e p
  | node (.yielding isDelegate) es, p =>
      wrap (decide (Strength.assign ≤ p.strength))
        (.word "yield" :: (if isDelegate then [.text "*"] else []) ++
          operand style Strength.yielding p.depth es)
  | node .awaiting [e], p =>
      wrap (decide (Strength.prefixed ≤ p.strength))
        ([.word "await", .gap] ++ expr style e (p.later Strength.power))
  | node (.importCall mode) args, p =>
      let word := match mode with
        | none => "import"
        | some m => "import" ++ modeWord m
      wrap (decide (Strength.construct ≤ p.strength) || p.bansCall)
        ([.word word, .text "("] ++ commaList style p.depth args ++ [.text ")"])
  | node (.arrayPattern isTarget) es, p =>
      .text "[" :: patternElements style isTarget true p.depth es ++ [.text "]"]
  | node (.objectPattern true) ps, p =>
      .text "\x7b" :: targetProperties style true p.depth ps ++ [.text "\x7d"]
  | node (.objectPattern false) ps, p =>
      if ps.isEmpty then [.text "\x7b\x7d"]
      else [.text "\x7b", .gap] ++ boundProperties style true p.depth ps ++ [.gap, .text "\x7d"]
  | node .withDefault [target, value], p =>
      expr style target p ++ [.gap, .text "=", .gap] ++
        expr style value (.inner Strength.comma p.depth)
  | node (.declaration kind) ds, p =>
      declarationWords kind ++ .gap :: declarators style p.toLevel true ds
  | node .rest [target], p => .text "..." :: expr style target (.inner Strength.comma p.depth)
  | node (.typeName path) ts, p => .word path :: angled ts.isEmpty (commaList style p.depth ts)
  | node .literalType [e], p =>
      match e with
      | node (.string v l) _ => [.text (Written.stringLiteral style false l v)]
      | _ => expr style e (.inner Strength.lowest p.depth)
  | node (.typeOperator w) [t], p =>
      [.word w, .space] ++ expr style t (.inner Strength.lowest p.depth)
  | node .arrayType [t], p => expr style t (.inner Strength.lowest p.depth) ++ [.text "[]"]
  | node .indexedType [t, key], p =>
      expr style t (.inner Strength.lowest p.depth) ++
        .text "[" :: expr style key (.inner Strength.lowest p.depth) ++ [.text "]"]
  | node (.joinedType isAll) ts, p => joinedTypes style p.depth isAll true ts
  | node .tupleType ts, p => .text "[" :: commaList style p.depth ts ++ [.text "]"]
  | node (.tupleElement name isOptional) [t], p =>
      (match name with
        | some n => [.word n] ++ optionalMark isOptional ++ [.text ":", .gap]
        | none => []) ++
        expr style t (.inner Strength.lowest p.depth) ++ optionalMark (isOptional && name.isNone)
  | node .groupedType [t], p =>
      .text "(" :: expr style t (.inner Strength.lowest p.depth) ++ [.text ")"]
  | node (.functionType isConstructor) [ps, result], p =>
      (if isConstructor then [.word "new", .space] else []) ++
        .text "(" :: expr style ps (.inner Strength.lowest p.depth) ++
        [.text ")", .gap, .text "=>", .gap] ++ expr style result (.inner Strength.lowest p.depth)
  | node .conditionalType [t, bound, a, b], p =>
      expr style t (.inner Strength.lowest p.depth) ++ [.space, .word "extends", .space] ++
        expr style bound (.inner Strength.lowest p.depth) ++ [.gap, .text "?", .gap] ++
        expr style a (.inner Strength.lowest p.depth) ++ [.gap, .text ":", .gap] ++
        expr style b (.inner Strength.lowest p.depth)
  | node .objectType ts, p =>
      match ts with
      | [] => [.text "\x7b\x7d"]
      | [_] => [.text "\x7b", .gap] ++ commaList style p.depth ts ++ [.gap, .text "\x7d"]
      | _ => braced p.depth false (memberTypes style (p.depth + 1) ts)
  | node (.fieldType isReadonly isOptional) [key, t], p =>
      readonlyWord isReadonly ++
        keyText style key (expr style key (.inner Strength.comma p.depth)) ++
        optionalMark isOptional ++ annotation t (expr style t (.inner Strength.lowest p.depth))
  | node (.methodType kind isOptional) [key, ps, result], p =>
      (if kind == .constructor then [.word "new", .space] else memberWord kind) ++
        optional key (keyText style key (expr style key (.inner Strength.comma p.depth))) ++
        optionalMark isOptional ++ .text "(" :: expr style ps (.inner Strength.lowest p.depth) ++
          .text ")" ::
        annotation result (expr style result (.inner Strength.lowest p.depth))
  | node (.indexType isReadonly name) [key, value], p =>
      readonlyWord isReadonly ++ [.text "[", .word name, .text ":", .gap] ++
        expr style key (.inner Strength.lowest p.depth) ++ [.text "]", .text ":", .gap] ++
        expr style value (.inner Strength.lowest p.depth)
  | node _ ts, p => commaList style p.depth ts
termination_by structural t => t

def commaList (style : Style) (depth : Nat) : List Tree → List Piece
  | [] => []
  | [t] => expr style t (.inner Strength.comma depth)
  | t :: ts => expr style t (.inner Strength.comma depth) ++ separator ++ commaList style depth ts
termination_by structural ts => ts

/-- The decorators in front of something, each with its space. -/
def decoratorList (style : Style) (depth : Nat) : List Tree → List Piece
  | [] => []
  | t :: ts =>
      .text "@" :: wrap (!isDecoratorName t) (expr style t (.inner Strength.lowest depth)) ++
        .space :: decoratorList style depth ts
termination_by structural ts => ts

def joinedTypes (style : Style) (depth : Nat) (isAll isFirst : Bool) : List Tree → List Piece
  | [] => []
  | t :: ts =>
      (if isFirst then [] else joint isAll) ++ expr style t (.inner Strength.lowest depth) ++
        joinedTypes style depth isAll false ts
termination_by structural ts => ts

/-- The members of an object type on lines of their own. -/
def memberTypes (style : Style) (depth : Nat) : List Tree → List Piece
  | [] => []
  | t :: ts =>
      .indent depth :: expr style t (.inner Strength.lowest depth) ++ [.text ";", .newline] ++
        memberTypes style depth ts
termination_by structural ts => ts

/-- The members of an enumeration on lines of their own. -/
def enumMembers (style : Style) (depth : Nat) : List Tree → List Piece
  | [] => []
  | node .enumMember [key, value] :: ts =>
      .indent depth :: keyText style key (expr style key (.inner Strength.comma depth)) ++
        optional value ([.gap, .text "=", .gap] ++
          expr style value (.inner Strength.lowest depth)) ++
        (if ts.isEmpty then [] else [.text ","]) ++ .newline :: enumMembers style depth ts
  | _ :: ts => enumMembers style depth ts
termination_by structural ts => ts

def operand (style : Style) (strength : Strength) (depth : Nat) : List Tree → List Piece
  | [] => []
  | t :: _ => .gap :: expr style t (.inner strength depth)
termination_by structural ts => ts

/-- The expressions of a sequence, of which the first comes first. -/
def sequenceItems (style : Style) (p : Place) : List Tree → List Piece
  | [] => []
  | [t] => expr style t p
  | t :: ts => expr style t p ++ separator ++ sequenceItems style { p with start := .inner } ts
termination_by structural ts => ts

def substitutions (style : Style) (depth : Nat) (chunks : List String) : List Tree → List Piece
  | [] => [.text (chunks.headD ""), .text "`"]
  | e :: es =>
      [.text (chunks.headD ""), .text "$\x7b"] ++ expr style e (.inner Strength.lowest depth) ++
        .text "\x7d" :: substitutions style depth (chunks.drop 1) es
termination_by structural es => es

/-- The elements of an array literal on one line. A gap at the end keeps its comma. -/
def inlineElements (style : Style) (depth : Nat) (isFirst : Bool) : List Tree → List Piece
  | [] => []
  | node .hole _ :: ts =>
      (if isFirst then [] else separator) ++ (if ts.isEmpty then [.text ","] else []) ++
        inlineElements style depth false ts
  | t :: ts =>
      (if isFirst then [] else separator) ++ expr style t (.inner Strength.comma depth) ++
        inlineElements style depth false ts
termination_by structural ts => ts

/-- The elements of an array literal, each on a line of its own. -/
def lineElements (style : Style) (depth : Nat) (isFirst : Bool) : List Tree → List Piece
  | [] => []
  | node .hole _ :: ts =>
      (if isFirst then [] else [.text ","]) ++ [.newline, .indent depth] ++
        (if ts.isEmpty then [.text ","] else []) ++ lineElements style depth false ts
  | t :: ts =>
      (if isFirst then [] else [.text ","]) ++ [.newline, .indent depth] ++
        expr style t (.inner Strength.comma depth) ++ lineElements style depth false ts
termination_by structural ts => ts

/-- The properties of an object literal, on lines of their own if asked for. -/
def lineProperties (style : Style) (l : Level) (isLined isFirst : Bool) :
    List Tree → List Piece
  | [] => []
  | node (.property kind) [key, value] :: ts =>
      (if isFirst then [] else [.text ","]) ++
        (if isLined then [.newline, .indent l.depth] else []) ++
        propertyStart kind value ++
        (if isShortProperty kind key value then []
          else propertyKey style kind key (expr style key (.inner Strength.comma l.depth)) ++
            (if isMethod kind then [] else [.text ":", .gap])) ++
        (if isMethod kind then methodRest style l value
          else expr style value (.inner Strength.comma l.depth)) ++
        lineProperties style l isLined false ts
  | t :: ts =>
      (if isFirst then [] else [.text ","]) ++
        (if isLined then [.newline, .indent l.depth] else []) ++
        expr style t (.inner Strength.comma l.depth) ++ lineProperties style l isLined false ts
termination_by structural ts => ts

def methodRest (style : Style) (l : Level) : Tree → List Piece
  | node (.function _ _ _) [_, ps, body] =>
      .text "(" :: expr style ps (.inner Strength.comma l.depth) ++ [.text ")", .gap] ++
        functionBody style l body
  | _ => []
termination_by structural t => t

/-- The elements of an array pattern. The last one keeps its comma when it is a gap or when the
rest follows. -/
def patternElements (style : Style) (isTarget isFirst : Bool) (depth : Nat) :
    List Tree → List Piece
  | [] => []
  | node .rest ts :: _ =>
      (if isFirst then (if isTarget then [] else [.gap]) else [.text ",", .gap]) ++
        .text "..." :: commaList style depth ts
  | node .hole _ :: ts =>
      (if isFirst then [] else separator) ++ (if ts.isEmpty then [.text ","] else []) ++
        patternElements style isTarget false depth ts
  | t :: ts =>
      (if isFirst then [] else separator) ++ expr style t (.inner Strength.comma depth) ++
        patternElements style isTarget false depth ts
termination_by structural ts => ts

/-- The properties of an object pattern in an assignment, where a key is printed as any
expression. -/
def targetProperties (style : Style) (isFirst : Bool) (depth : Nat) : List Tree → List Piece
  | [] => []
  | node (.property kind) [key, value] :: ts =>
      let omitsKey := kind == .shorthand || (style == .compact && keyNames key (elementName value))
      (if isFirst then [] else separator) ++
        (if omitsKey then [] else expr style key (.inner Strength.comma depth) ++
          [.text ":", .gap]) ++
        expr style value (.inner Strength.comma depth) ++ targetProperties style false depth ts
  | t :: ts =>
      (if isFirst then [] else separator) ++ expr style t (.inner Strength.comma depth) ++
        targetProperties style false depth ts
termination_by structural ts => ts

/-- The properties of an object pattern in a declaration. -/
def boundProperties (style : Style) (isFirst : Bool) (depth : Nat) : List Tree → List Piece
  | [] => []
  | node (.property _) [key, value] :: ts =>
      (if isFirst then [] else separator) ++
        (if keyNames key (elementName value) then []
          else keyText style key (expr style key (.inner Strength.comma depth)) ++
            [.text ":", .gap]) ++
        expr style value (.inner Strength.comma depth) ++ boundProperties style false depth ts
  | t :: ts =>
      (if isFirst then [] else [.text ","]) ++ expr style t (.inner Strength.comma depth) ++
        boundProperties style false depth ts
termination_by structural ts => ts

def functionBody (style : Style) (l : Level) : Tree → List Piece
  | node (.body ds) ts =>
      braced l.depth (ds.isEmpty && ts.isEmpty)
        (directives (l.depth + 1) ds ++ shielded style l.deeper (shieldsFirst style ds ts) ts)
  | _ => []
termination_by structural t => t

/-- The expression that is the body of an arrow function. -/
def conciseBody (style : Style) (p : Place) : Tree → List Piece
  | node _ (node .expression [e] :: _) =>
      expr style e { p with strength := Strength.comma, start := .arrowBody }
  | _ => []
termination_by structural t => t

/-- Statements, of which the first may be a string that must not become a directive. -/
def shielded (style : Style) (l : Level) (isShielded : Bool) : List Tree → List Piece
  | [] => []
  | t :: ts =>
      (if isShielded then shieldedString style t else statement style .ownLine l t) ++
        statements style l ts
termination_by structural ts => ts

def classMembers (style : Style) (l : Level) : List Tree → List Piece
  | [] => []
  | node (.methodOf kind words mark) [ds, key, node (.function a g _) [_, ps, body]] :: ts =>
      .indent l.depth :: expr style ds (.inner Strength.lowest l.depth) ++ memberWords words key ++
        memberWord kind ++ functionMarks a g ++
        keyText style key (expr style key (.inner Strength.comma l.depth)) ++ markText mark ++
        .text "(" :: expr style ps (.inner Strength.comma l.depth) ++ [.text ")", .gap] ++
        functionBody style l body ++ .newline :: classMembers style l ts
  | node (.field words mark) [ds, key, value] :: ts =>
      .indent l.depth :: expr style ds (.inner Strength.lowest l.depth) ++ memberWords words key ++
        keyText style key (expr style key (.inner Strength.comma l.depth)) ++ markText mark ++
        optional value ([.gap, .text "=", .gap] ++
          expr style value (.inner Strength.comma l.depth)) ++
        .statementEnd :: classMembers style l ts
  | node .staticBlock body :: ts =>
      [.indent l.depth, .word "static", .gap] ++
        braced l.depth body.isEmpty (statements style l.deeper body) ++
        .newline :: classMembers style l ts
  | _ :: ts => classMembers style l ts
termination_by structural ts => ts

def statements (style : Style) (l : Level) : List Tree → List Piece
  | [] => []
  | t :: ts => statement style .ownLine l t ++ statements style l ts
termination_by structural ts => ts

def declarators (style : Style) (l : Level) (isFirst : Bool) : List Tree → List Piece
  | [] => []
  | node .declarator [target, value] :: ts =>
      (if isFirst then [] else separator) ++ expr style target (.inner Strength.lowest l.depth) ++
        [.gap, .text "=", .gap] ++ expr style value ⟨l, Strength.comma, .inner⟩ ++
        declarators style l false ts
  | node .declarator [target] :: ts =>
      (if isFirst then [] else separator) ++ expr style target (.inner Strength.lowest l.depth) ++
        declarators style l false ts
  | _ :: ts => declarators style l isFirst ts
termination_by structural ts => ts

/-- The branches of a conditional statement after its test. A first branch that would take over an
`else` is put between braces. -/
def branches (style : Style) (l : Level) : List Tree → List Piece
  | [] => []
  | [first] =>
      if takesElse first then
        .gap :: braced l.depth false (statement style .ownLine l.deeper first) ++ [.newline]
      else statement style .headed l first
  | first :: other :: _ =>
      (if takesElse first then
        .gap :: braced l.depth false (statement style .ownLine l.deeper first) ++ [.gap]
      else if isBlock first then statement style .followed l first
      else statement style .headed l first ++ [.indent l.depth]) ++
        .word "else" :: statement style .afterElse l other
termination_by structural ts => ts

/-- The cases of a switch. A single statement stays on the line of its case. -/
def cases (style : Style) (l : Level) : List Tree → List Piece
  | [] => []
  | node .switchCase [test, t] :: ts =>
      .indent l.depth :: caseLabel test (expr style test (.inner Strength.lowest l.depth)) ++
        statement style .headed l t ++ cases style l ts
  | node .switchCase (test :: body) :: ts =>
      .indent l.depth :: caseLabel test (expr style test (.inner Strength.lowest l.depth)) ++
        .newline :: statements style l.deeper body ++ cases style l ts
  | _ :: ts => cases style l ts
termination_by structural ts => ts

def handler (style : Style) (f : Footing) (l : Level) : Tree → List Piece
  | node .catchClause [pattern, t] =>
      .word "catch" ::
        optional pattern
          ([.gap, .text "("] ++ expr style pattern (.inner Strength.lowest l.depth) ++
            [.text ")"]) ++
        statement style f l t
  | _ => []
termination_by structural t => t

def statement (style : Style) (f : Footing) (l : Level) : Tree → List Piece
  | node .expression [e] =>
      f.lead l.depth ++ expr style e ⟨.plain l.depth, Strength.lowest, .statement⟩ ++
        [if isLet e then .text ";" else .statementEnd]
  | node .block ts =>
      f.leadBlock l.depth ++ braced l.depth ts.isEmpty (statements style l.deeper ts) ++ [f.trail]
  | node .empty _ => f.leadEmpty l.depth ++ [.text ";", .newline]
  | node .ifElse (test :: ts) =>
      f.lead l.depth ++ head "if" true (expr style test (.inner Strength.lowest l.depth)) ++
        branches style l ts
  | node .forLoop [start, test, update, t] =>
      f.lead l.depth ++ head "for" true
        (optional start (expr style start ⟨l.loopHead, Strength.lowest, .inner⟩) ++
          .text ";" :: optional test (.gap :: expr style test (.inner Strength.lowest l.depth)) ++
          .text ";" :: optional update
            (.gap :: expr style update (.inner Strength.lowest l.depth))) ++
        statement style .headed l t
  | node .forIn [left, object, t] =>
      f.lead l.depth ++ head "for" true
        (wrap (isAsyncName left) (expr style left ⟨l.loopHead, Strength.lowest, .inner⟩) ++
          [.gap, .word "in", .gap] ++ expr style object (.inner Strength.lowest l.depth)) ++
        statement style .headed l t
  | node (.forOf isAwait) [left, list, t] =>
      f.lead l.depth ++ [.word "for"] ++ (if isAwait then [.space, .word "await"] else []) ++
        [.gap, .text "("] ++
        wrap (isAsyncName left) (expr style left ⟨l.loopHead, Strength.lowest, .inner⟩) ++
        [.gap, .word "of", .gap] ++ expr style list (.inner Strength.comma l.depth) ++
        .text ")" :: statement style .headed l t
  | node .whileLoop [test, t] =>
      f.lead l.depth ++ head "while" true (expr style test (.inner Strength.lowest l.depth)) ++
        statement style .headed l t
  | node .doWhile [t, test] =>
      f.lead l.depth ++ .word "do" ::
        (if isBlock t then statement style .followed l t
          else if t.form == .empty then statement style .ownLine l t
          else .newline :: statement style .ownLine l.deeper t ++ [.indent l.depth]) ++
        head "while" true (expr style test (.inner Strength.lowest l.depth)) ++ [.statementEnd]
  | node .switch (value :: ts) =>
      f.lead l.depth ++ head "switch" true (expr style value (.inner Strength.lowest l.depth)) ++
        .gap :: braced l.depth ts.isEmpty (cases style l.deeper ts) ++ [.newline]
  | node .tryCatch [t, clause, last] =>
      f.lead l.depth ++ .word "try" :: statement style .followed l t ++
        handler style (if last.isMissing then .headed else .followed) l clause ++
        optional last (.word "finally" :: statement style .headed l last)
  | node .throwing [e] =>
      f.lead l.depth ++ [.word "throw", .gap] ++ expr style e (.inner Strength.lowest l.depth) ++
        [.statementEnd]
  | node .returning [] => f.lead l.depth ++ [.word "return", .statementEnd]
  | node .returning [e] =>
      f.lead l.depth ++ [.word "return", .gap] ++ expr style e (.inner Strength.lowest l.depth) ++
        [.statementEnd]
  | node (.breaking label) _ => f.lead l.depth ++ jump "break" label
  | node (.continuing label) _ => f.lead l.depth ++ jump "continue" label
  | node (.labeled n) [t] =>
      f.lead l.depth ++ [.word n, .text ":"] ++ statement style .headed l t
  | node .withObject [e, t] =>
      f.lead l.depth ++ head "with" false (expr style e (.inner Strength.lowest l.depth)) ++
        statement style .headed l t
  | node .debugger _ => f.lead l.depth ++ [.word "debugger", .statementEnd]
  | node (.declaration kind) ds =>
      f.lead l.depth ++ declarationWords kind ++ .gap :: declarators style l true ds ++
        [.statementEnd]
  | node (.function isAsync isGenerator isEffectFree) [name, ps, t] =>
      let isSaid := isEffectFree && f != .exported
      f.lead l.depth ++ effectLine isSaid ++ (if isSaid then [.indent l.depth] else []) ++
        functionHead isAsync isGenerator name ++ .text "(" ::
        expr style ps (.inner Strength.comma l.depth) ++ [.text ")", .gap] ++
        functionBody style l t ++ [.newline]
  | node .classOf (ds :: name :: superclass :: claims :: members) =>
      f.lead l.depth ++ expr style ds (.inner Strength.lowest l.depth) ++ classHead name ++
        clause "extends" superclass.isMissing
          (expr style superclass (.inner Strength.postfixed l.depth)) ++
        clause "implements" claims.parts.isEmpty
          (expr style claims (.inner Strength.lowest l.depth)) ++
        .gap :: braced l.depth members.isEmpty (classMembers style l.deeper members) ++ [.newline]
  | node (.importFrom mode isBare) ts => f.lead l.depth ++ importText style mode isBare ts
  | node (.exportNames isType) ts => f.lead l.depth ++ exportNamesText style isType ts
  | node (.exportAll isType name) ts => f.lead l.depth ++ exportAllText style isType name ts
  | node .exportDeclaration [t] =>
      effectLine (isEffectFree t) ++ f.lead l.depth ++ [.word "export", .space] ++
        statement style .exported l t
  | node .exportDefault [t] =>
      effectLine (isEffectFree t) ++ f.lead l.depth ++
        [.word "export", .space, .word "default", .space] ++
        (if isDefinition t then statement style .exported l t
          else expr style t ⟨.plain l.depth, Strength.comma, .exported⟩ ++ [.statementEnd])
  | node (.importAlias n) [target] =>
      f.lead l.depth ++ [.word "import", .space, .word n, .gap, .text "=", .gap] ++
        requiredText style target (expr style target (.inner Strength.lowest l.depth)) ++
        [.statementEnd]
  | node (.typeAlias n) [t] =>
      f.lead l.depth ++ [.word "type", .space, .word n, .gap, .text "=", .gap] ++
        expr style t (.inner Strength.lowest l.depth) ++ [.statementEnd]
  | node (.interface n) [parents, node _ ts] =>
      f.lead l.depth ++ [.word "interface", .space, .word n] ++
        clause "extends" parents.parts.isEmpty
          (expr style parents (.inner Strength.lowest l.depth)) ++
        .gap :: braced l.depth ts.isEmpty (memberTypes style (l.depth + 1) ts) ++ [.newline]
  | node (.enumeration isConst n) ts =>
      f.lead l.depth ++ (if isConst then [.word "const", .space] else []) ++
        [.word "enum", .space, .word n, .gap] ++
        braced l.depth ts.isEmpty (enumMembers style (l.depth + 1) ts) ++ [.newline]
  | node (.namespaceOf word n) [t] =>
      f.lead l.depth ++ [.word word, .space, external style n, .gap] ++ functionBody style l t ++
        [.newline]
  | node _ ts => statements style l ts
termination_by structural t => t

end

def program (style : Style) : Tree → List Piece
  | node (.program firstLine ds) ts =>
      (match firstLine with
        | some line => [.text ("#!" ++ line ++ "\n")]
        | none => []) ++
        directives 0 ds ++ shielded style (.plain 0) (shieldsFirst style ds ts) ts
  | t => statement style .ownLine (.plain 0) t

end DefineBundle.Script.Print

namespace DefineBundle.Script

def print (style : Style) (t : Tree) : String :=
  Piece.render style (Print.program style t)

end DefineBundle.Script
