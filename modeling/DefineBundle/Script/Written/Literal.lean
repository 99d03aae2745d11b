import DefineBundle.Script.Token.Literal

/-!
# Written literals

How a printed script spells its string literals and directives. Readable text always takes double
quotes; compact text takes the kind of quote with the fewest escapes.
-/
namespace DefineBundle.Script

/-- The two ways to print a script. -/
inductive Style
  | readable | compact
  deriving DecidableEq, Repr

namespace Written

/-- What a quote costs: how often it must be escaped in the text, less the line ends that a
backquote need not escape. -/
def cost (quote : Char) : List Char → Int
  | [] => 0
  | '\n' :: cs => (if quote == '`' then -1 else 0) + cost quote cs
  | '$' :: '{' :: cs => (if quote == '`' then 1 else 0) + cost quote cs
  | c :: cs => (if c == quote then 1 else 0) + cost quote cs

/-- The quote for a string literal; `mayBackquote` where a template could stand. -/
def quoteFor (style : Style) (mayBackquote : Bool) (cs : List Char) : Char :=
  match style with
  | .readable => '"'
  | .compact =>
      let b := cost '`' cs
      let d := cost '"' cs
      let s := cost '\'' cs
      if mayBackquote && b ≤ d && b ≤ s then '`' else if d ≤ s then '"' else '\''

/-- The characters of a string value between quotes of the given kind. -/
def escaped (quote : Char) (loneSurrogates : Bool) : List Char → List Char
  | [] => []
  | '\x00' :: cs =>
      let zero := match cs with
        | d :: _ => if d.isDigit then ['\\', 'x', '0', '0'] else ['\\', '0']
        | [] => ['\\', '0']
      zero ++ escaped quote loneSurrogates cs
  | '\ufffd' :: a :: b :: c :: d :: cs =>
      if !loneSurrogates then '\ufffd' :: escaped quote loneSurrogates (a :: b :: c :: d :: cs)
      else if [a, b, c, d] == ['f', 'f', 'f', 'd'] then '\ufffd' :: escaped quote loneSurrogates cs
      else '\\' :: 'u' :: a :: b :: c :: d :: escaped quote loneSurrogates cs
  | '$' :: '{' :: cs =>
      (if quote == '`' then ['\\', '$', '{'] else ['$', '{']) ++ escaped quote loneSurrogates cs
  | c :: cs =>
      let one := match c with
        | '\x07' => ['\\', 'x', '0', '7']
        | '\x08' => ['\\', 'b']
        | '\x0b' => ['\\', 'v']
        | '\x0c' => ['\\', 'f']
        | '\r' => ['\\', 'r']
        | '\x1b' => ['\\', 'x', '1', 'B']
        | '\\' => ['\\', '\\']
        | '\u2028' => ['\\', 'u', '2', '0', '2', '8']
        | '\u2029' => ['\\', 'u', '2', '0', '2', '9']
        | '\u00a0' => ['\\', 'x', 'A', '0']
        | '\n' => if quote == '`' then ['\n'] else ['\\', 'n']
        | _ => if c == quote then ['\\', c] else [c]
      one ++ escaped quote loneSurrogates cs

def stringLiteral (style : Style) (mayBackquote loneSurrogates : Bool) (value : String) : String :=
  let cs := value.toList
  let q := quoteFor style mayBackquote cs
  String.ofList (q :: escaped q loneSurrogates cs ++ [q])

/-- The quote for a directive, which keeps its raw text: the other kind than the first unescaped
quote inside. -/
def directiveQuote : List Char → Char
  | '\\' :: _ :: cs => directiveQuote cs
  | '"' :: _ => '\''
  | '\'' :: _ => '"'
  | _ :: cs => directiveQuote cs
  | [] => '"'

def directive (raw : String) : String :=
  let q := String.singleton (directiveQuote raw.toList)
  q ++ raw ++ q

end Written

end DefineBundle.Script
