import DefineBundle.Script.Numeral

/-!
# Syntax trees of scripts

A tree is a form with its parts in source order. The form says what the node is and carries all
that is not itself a tree: names, literal values, operators, flags. The parts of each form are
listed beside it; a part that is missing in the source is the form `absent`. Walking a tree part by
part therefore visits a program in the order in which it is written.
-/
namespace DefineBundle.Script

inductive UnaryOp
  | minus | plus | not | complement | typeof | void | delete
  deriving DecidableEq, Repr

/-- Operators that change a variable by one. -/
inductive UpdateOp
  | increment | decrement
  deriving DecidableEq, Repr

inductive BinaryOp
  | coalesce | or | and
  | bitOr | bitXor | bitAnd
  | equal | notEqual | same | notSame
  | less | lessEqual | greater | greaterEqual | instanceOf | inside
  | shiftLeft | shiftRight | shiftRightZero
  | add | sub | mul | div | rem | pow
  deriving DecidableEq, Repr

inductive BindingKind
  | var | mutable | constant
  /-- Constant, and closed at the end of its block. -/
  | resource
  /-- The same, and its end is awaited. -/
  | asyncResource
  deriving DecidableEq, Repr

/-- What an entry of an object literal or object pattern is. -/
inductive PropertyKind
  | plain | shorthand | method | getter | setter
  deriving DecidableEq, Repr

inductive MethodKind
  | plain | getter | setter | constructor
  deriving DecidableEq, Repr

/-- How a module is imported when it is not loaded and evaluated at once: its source alone, later,
or for its types alone. -/
inductive ImportMode
  | source | deferred | types
  deriving DecidableEq, Repr

/-- A name by which a module knows what it exports: a plain name, or any text between quotes. -/
structure ExternalName where
  text : String
  isQuoted : Bool
  deriving DecidableEq, Repr

inductive MemberMark
  | bare | optional | definite
  deriving DecidableEq, Repr

/-- What a node is, with all of its content that is not a tree. -/
inductive Form
  /-- A part that is missing in the source. -/
  | absent
  /-- A gap in an array literal or pattern. -/
  | hole
  | identifier (name : String)
  /-- A class private name used as a key, without its mark. -/
  | privateName (name : String)
  /-- A plain name used as a property key. -/
  | keyName (name : String)
  /-- `[key]`: the key. -/
  | computedKey
  | thisRef
  | superRef
  | nullLiteral
  | boolean (value : Bool)
  | number (value : Numeral)
  | bigInt (digits : String)
  /-- With `loneSurrogates`, U+FFFD and four hexadecimal digits stand for a code unit that is no
  character. -/
  | string (value : String) (loneSurrogates : Bool)
  | regex (pattern flags : String)
  /-- The raw chunks around the substitutions: the substitutions. -/
  | template (chunks : List String)
  /-- `meta.property`, such as `new.target`. -/
  | metaProperty (target property : String)
  /-- The elements. -/
  | array
  /-- The properties. -/
  | object
  /-- Key, value. -/
  | property (kind : PropertyKind)
  /-- The operand; `isFollowed` when a comma stands after it. -/
  | spread (isFollowed : Bool)
  /-- Name or absent, parameters, body; `isEffectFree` when a comment says so. -/
  | function (isAsync isGenerator isEffectFree : Bool)
  /-- Parameters, body; a concise body holds its expression as a statement. -/
  | arrow (isAsync isConcise isEffectFree : Bool)
  /-- The parameters in order. -/
  | parameters
  /-- The statements after the directives. -/
  | body (directives : List String)
  /-- Decorators, parameter. -/
  | decorated
  /-- The decorators in front of a class, a member or a parameter. -/
  | decorators
  /-- Decorators, name or absent, superclass or absent, interfaces, members. -/
  | classOf
  /-- The interfaces that a class or interface claims. -/
  | interfaces
  /-- Decorators, key, function; `words` stand in front of the key. -/
  | methodOf (kind : MethodKind) (words : List String) (mark : MemberMark)
  /-- Decorators, key, value or absent; `words` stand in front of the key. -/
  | field (words : List String) (mark : MemberMark)
  /-- The statements. -/
  | staticBlock
  /-- The operand. -/
  | unary (op : UnaryOp)
  /-- The operand. -/
  | update (op : UpdateOp) (isPrefixed : Bool)
  /-- Left operand, right operand. -/
  | binary (op : BinaryOp)
  /-- Target, value; the operator is the one of a compound assignment. -/
  | assign (op : Option BinaryOp)
  /-- Test, first branch, second branch. -/
  | conditional
  /-- Object: whether it has the private name. -/
  | privateIn (name : String)
  /-- Callee, arguments; `isPure` when a comment says so. -/
  | call (isOptional isPure : Bool)
  /-- Callee, arguments; `isPure` when a comment says so. -/
  | construct (isPure : Bool)
  /-- Object. -/
  | member (isOptional : Bool) (name : String)
  /-- Object. -/
  | privateMember (isOptional : Bool) (name : String)
  /-- Object, key. -/
  | index (isOptional : Bool)
  /-- A whole optional chain. -/
  | chain
  /-- Tag, template. -/
  | tagged
  /-- The expressions. -/
  | sequence
  /-- The expression between parentheses. -/
  | parens
  /-- The operand, if any. -/
  | yielding (isDelegate : Bool)
  /-- The operand. -/
  | awaiting
  /-- Module name, options if any. -/
  | importCall (mode : Option ImportMode)
  /-- The elements; `isTarget` in an assignment, otherwise in a declaration. -/
  | arrayPattern (isTarget : Bool)
  /-- The properties; `isTarget` in an assignment, otherwise in a declaration. -/
  | objectPattern (isTarget : Bool)
  /-- Target, default value. -/
  | withDefault
  /-- The target that takes the rest. -/
  | rest
  /-- The statements after the directives. -/
  | program (hashbang : Option String) (directives : List String)
  /-- The expression. -/
  | expression
  /-- The statements. -/
  | block
  | empty
  /-- Test, first branch, second branch if any. -/
  | ifElse
  /-- Start or absent, test or absent, update or absent, body. -/
  | forLoop
  /-- Left side, object, body. -/
  | forIn
  /-- Left side, list, body. -/
  | forOf (isAwait : Bool)
  /-- Test, body. -/
  | whileLoop
  /-- Body, test. -/
  | doWhile
  /-- Discriminant, cases. -/
  | switch
  /-- Test, or absent for the default; statements. -/
  | switchCase
  /-- Block, catch clause or absent, last block or absent. -/
  | tryCatch
  /-- Pattern or absent, block. -/
  | catchClause
  /-- The value. -/
  | throwing
  /-- The value, if any. -/
  | returning
  | breaking (label : Option String)
  | continuing (label : Option String)
  /-- The statement. -/
  | labeled (label : String)
  /-- Object, body. -/
  | withObject
  | debugger
  /-- The declarators. -/
  | declaration (kind : BindingKind)
  /-- Target, start value if any. -/
  | declarator
  /-- Module, attributes or absent, specifiers; without `isBare` a list of them was written. -/
  | importFrom (mode : Option ImportMode) (isBare : Bool)
  /-- The attributes of a module; `isAssertion` in the older spelling. -/
  | importAttributes (isAssertion : Bool)
  /-- Key, value. -/
  | importAttribute
  /-- The local name of a module's default. -/
  | importDefault (name : String)
  /-- The local name of a whole module. -/
  | importAll (name : String)
  /-- A name of the module and its local name. -/
  | importName (isType : Bool) (imported : ExternalName) (name : String)
  /-- What the name stands for: a module or a name. -/
  | importAlias (name : String)
  /-- The name of a module, as what an import stands for. -/
  | required
  /-- Module or absent, attributes or absent, specifiers. -/
  | exportNames (isType : Bool)
  /-- A local name and the name it is exported by. -/
  | exportName (isType : Bool) (name exported : ExternalName)
  /-- Module, attributes or absent. -/
  | exportAll (isType : Bool) (name : Option ExternalName)
  /-- The declaration. -/
  | exportDeclaration
  /-- The expression, function or class. -/
  | exportDefault
  /-- The type. -/
  | typeAlias (name : String)
  /-- Interfaces, object type. -/
  | interface (name : String)
  /-- The members. -/
  | enumeration (isConst : Bool) (name : String)
  /-- Key, value or absent. -/
  | enumMember
  /-- The body. -/
  | namespaceOf (word : String) (name : ExternalName)
  /-- A name with dots between its parts: the type arguments. -/
  | typeName (path : String)
  /-- The literal. -/
  | literalType
  /-- The type behind a word. -/
  | typeOperator (word : String)
  /-- The type of the elements. -/
  | arrayType
  /-- Type, key type. -/
  | indexedType
  /-- The types, of which one holds or all do. -/
  | joinedType (isAll : Bool)
  /-- The elements. -/
  | tupleType
  /-- The type. -/
  | tupleElement (name : Option String) (isOptional : Bool)
  /-- The type between parentheses. -/
  | groupedType
  /-- Parameters, result. -/
  | functionType (isConstructor : Bool)
  /-- Type, bound, type within the bound, type outside. -/
  | conditionalType
  /-- The members. -/
  | objectType
  /-- Key, type or absent. -/
  | fieldType (isReadonly isOptional : Bool)
  /-- Key or absent, parameters, result or absent. -/
  | methodType (kind : MethodKind) (isOptional : Bool)
  /-- Key type, value type. -/
  | indexType (isReadonly : Bool) (name : String)
  deriving DecidableEq, Repr

inductive Tree
  | node (form : Form) (parts : List Tree)
  deriving Repr

namespace Tree

instance : Inhabited Tree := ⟨node .absent []⟩

abbrev leaf (form : Form) : Tree :=
  node form []

def form : Tree → Form
  | node f _ => f

def parts : Tree → List Tree
  | node _ ps => ps

/-- A part missing in the source. -/
abbrev missing : Tree :=
  leaf .absent

def isMissing (t : Tree) : Bool :=
  t.form == .absent

/-- The expression inside any number of parentheses. -/
def unparenthesized : Tree → Tree
  | node .parens [t] => t.unparenthesized
  | t => t

/-- `name(...)`: the arguments, when the tree is a call of exactly that name. -/
def callArguments? (name : String) : Tree → Option (List Tree)
  | node (.call _ _) (node (.identifier n) _ :: arguments) =>
      if n == name then some arguments else none
  | _ => none

end Tree

end DefineBundle.Script
