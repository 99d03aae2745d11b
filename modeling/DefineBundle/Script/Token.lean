import DefineBundle.Script.Tree

/-!
# Tokens of scripts

Punctuation, names and literals. Keywords are names; the grammar tells them apart. A template
literal is opened by a token of its own and then read chunk by chunk, and a slash is an operator
until the grammar asks for a regular expression.
-/
namespace DefineBundle.Script

/-- Punctuation that is no operator. -/
inductive Mark
  | braceOpen | braceClose | parenOpen | parenClose | bracketOpen | bracketClose
  | dot | ellipsis | semicolon | comma | question | optionalDot | colon | arrow
  | backquote | atSign
  deriving DecidableEq, Repr

inductive Token
  /-- A name or keyword; `isEscaped` when it was written with escapes. -/
  | name (text : String) (isEscaped : Bool)
  | privateName (text : String)
  | number (value : Numeral)
  | bigInt (digits : String)
  /-- The value of a string literal and the raw text between its quotes. -/
  | string (value : String) (loneSurrogates : Bool) (raw : String)
  | mark (mark : Mark)
  | operator (op : BinaryOp)
  | assign (op : Option BinaryOp)
  | update (op : UpdateOp)
  | not
  | complement
  | finish
  deriving DecidableEq, Repr

namespace Token

instance : Inhabited Token := ⟨finish⟩

/-- Whether the token is the keyword `word`, which must be written without escapes. -/
def isWord (word : String) : Token → Bool
  | name t e => t == word && !e
  | _ => false

/-- Whether the token is the given punctuation. -/
def isMark (m : Mark) : Token → Bool
  | mark k => k == m
  | _ => false

end Token

def isLineEnd (c : Char) : Bool :=
  c == '\n' || c == '\r' || c == '\u2028' || c == '\u2029'

end DefineBundle.Script
