import DefineBundle.Script.Token.Literal

/-!
# The next token

The longest punctuation or operator at the start of the characters, or else a literal or name.
-/
namespace DefineBundle.Script.Token

/-- Punctuation and operators, the longest first. -/
def punctuation? : List Char → Option (Token × List Char)
  | '{' :: cs => some (.mark .braceOpen, cs)
  | '}' :: cs => some (.mark .braceClose, cs)
  | '(' :: cs => some (.mark .parenOpen, cs)
  | ')' :: cs => some (.mark .parenClose, cs)
  | '[' :: cs => some (.mark .bracketOpen, cs)
  | ']' :: cs => some (.mark .bracketClose, cs)
  | ';' :: cs => some (.mark .semicolon, cs)
  | ',' :: cs => some (.mark .comma, cs)
  | ':' :: cs => some (.mark .colon, cs)
  | '`' :: cs => some (.mark .backquote, cs)
  | '@' :: cs => some (.mark .atSign, cs)
  | '~' :: cs => some (.complement, cs)
  | '.' :: '.' :: '.' :: cs => some (.mark .ellipsis, cs)
  | '.' :: cs => some (.mark .dot, cs)
  | '=' :: '=' :: '=' :: cs => some (.operator .same, cs)
  | '=' :: '=' :: cs => some (.operator .equal, cs)
  | '=' :: '>' :: cs => some (.mark .arrow, cs)
  | '=' :: cs => some (.assign none, cs)
  | '!' :: '=' :: '=' :: cs => some (.operator .notSame, cs)
  | '!' :: '=' :: cs => some (.operator .notEqual, cs)
  | '!' :: cs => some (.not, cs)
  | '+' :: '+' :: cs => some (.update .increment, cs)
  | '+' :: '=' :: cs => some (.assign (some .add), cs)
  | '+' :: cs => some (.operator .add, cs)
  | '-' :: '-' :: cs => some (.update .decrement, cs)
  | '-' :: '=' :: cs => some (.assign (some .sub), cs)
  | '-' :: cs => some (.operator .sub, cs)
  | '*' :: '*' :: '=' :: cs => some (.assign (some .pow), cs)
  | '*' :: '*' :: cs => some (.operator .pow, cs)
  | '*' :: '=' :: cs => some (.assign (some .mul), cs)
  | '*' :: cs => some (.operator .mul, cs)
  | '/' :: '=' :: cs => some (.assign (some .div), cs)
  | '/' :: cs => some (.operator .div, cs)
  | '%' :: '=' :: cs => some (.assign (some .rem), cs)
  | '%' :: cs => some (.operator .rem, cs)
  | '<' :: '<' :: '=' :: cs => some (.assign (some .shiftLeft), cs)
  | '<' :: '<' :: cs => some (.operator .shiftLeft, cs)
  | '<' :: '=' :: cs => some (.operator .lessEqual, cs)
  | '<' :: cs => some (.operator .less, cs)
  | '>' :: '>' :: '>' :: '=' :: cs => some (.assign (some .shiftRightZero), cs)
  | '>' :: '>' :: '>' :: cs => some (.operator .shiftRightZero, cs)
  | '>' :: '>' :: '=' :: cs => some (.assign (some .shiftRight), cs)
  | '>' :: '>' :: cs => some (.operator .shiftRight, cs)
  | '>' :: '=' :: cs => some (.operator .greaterEqual, cs)
  | '>' :: cs => some (.operator .greater, cs)
  | '&' :: '&' :: '=' :: cs => some (.assign (some .and), cs)
  | '&' :: '&' :: cs => some (.operator .and, cs)
  | '&' :: '=' :: cs => some (.assign (some .bitAnd), cs)
  | '&' :: cs => some (.operator .bitAnd, cs)
  | '|' :: '|' :: '=' :: cs => some (.assign (some .or), cs)
  | '|' :: '|' :: cs => some (.operator .or, cs)
  | '|' :: '=' :: cs => some (.assign (some .bitOr), cs)
  | '|' :: cs => some (.operator .bitOr, cs)
  | '^' :: '=' :: cs => some (.assign (some .bitXor), cs)
  | '^' :: cs => some (.operator .bitXor, cs)
  | '?' :: '?' :: '=' :: cs => some (.assign (some .coalesce), cs)
  | '?' :: '?' :: cs => some (.operator .coalesce, cs)
  | '?' :: '.' :: cs =>
      match cs with
      | d :: _ =>
          if d.isDigit then some (.mark .question, '.' :: cs) else some (.mark .optionalDot, cs)
      | [] => some (.mark .optionalDot, cs)
  | '?' :: cs => some (.mark .question, cs)
  | _ => none

/-- The token at the start of the characters, and the characters after it. -/
def next? (cs : List Char) : Option (Token × List Char) :=
  match cs with
  | [] => some (.finish, [])
  | '#' :: r => (Literal.name? r).map fun (n, _, rest) => (.privateName n, rest)
  | '"' :: _ => Literal.string? cs
  | '\'' :: _ => Literal.string? cs
  | '.' :: d :: _ => if d.isDigit then Literal.number? cs else punctuation? cs
  | c :: _ =>
      if c.isDigit then Literal.number? cs
      else match punctuation? cs with
        | some r => some r
        | none => (Literal.name? cs).map fun (n, e, rest) => (.name n e, rest)

end DefineBundle.Script.Token
