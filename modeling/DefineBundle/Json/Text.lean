import DefineBundle.Assoc
import DefineBundle.Json.Value

/-!
# JSON text

The text of a tree, without spaces. In a string a quote, a backslash and the control characters
are escaped; everything else stands as it is. A place that was at fault has no text.
-/
namespace DefineBundle.Json

namespace Text

def hex2 (n : Nat) : List Char :=
  [Nat.digitChar (n / 16 % 16), Nat.digitChar (n % 16)]

def escapeChar (c : Char) : List Char :=
  match c with
  | '"' => ['\\', '"']
  | '\\' => ['\\', '\\']
  | '\x08' => ['\\', 'b']
  | '\x0c' => ['\\', 'f']
  | '\n' => ['\\', 'n']
  | '\r' => ['\\', 'r']
  | '\t' => ['\\', 't']
  | _ => if c.toNat < 0x20 then ['\\', 'u', '0', '0'] ++ hex2 c.toNat else [c]

def string (s : String) : List Char :=
  '"' :: (s.toList.flatMap escapeChar ++ ['"'])

/-- The digits of a number with a power of ten after them, which has a sign and at least two
digits. -/
def scientific (ds : List Char) (power : Int) : List Char :=
  let places := Nat.toDigits 10 power.natAbs
  let sign := if power < 0 then '-' else '+'
  let tail := 'e' :: sign :: (List.replicate (2 - places.length) '0' ++ places)
  match ds with
  | d :: e :: more => d :: '.' :: e :: more ++ tail
  | _ => ds ++ tail

/-- A finite number: with a point, and at least one digit on each side of it, from `10 ^ -5` up to
`10 ^ 16`, otherwise with a power of ten. -/
def decimal (d : Nat) (e : Int) : List Char :=
  let ds := Nat.toDigits 10 d
  let point : Int := ds.length + e
  if 16 < point || point ≤ -5 then scientific ds (point - 1)
  else if 0 ≤ e then ds ++ List.replicate e.toNat '0' ++ ['.', '0']
  else if 0 < point then ds.take point.toNat ++ '.' :: ds.drop point.toNat
  else ['0', '.'] ++ List.replicate (-point).toNat '0' ++ ds

def float (isNegative : Bool) (n : Script.Numeral) : List Char :=
  let digits := match n with
    | .finite d e => decimal d e
    | .infinite => ['i', 'n', 'f']
  (if isNegative then ['-'] else []) ++ digits

end Text

mutual

def chars : Json → List Char
  | null => ['n', 'u', 'l', 'l']
  | bool true => ['t', 'r', 'u', 'e']
  | bool false => ['f', 'a', 'l', 's', 'e']
  | integer n => (toString n).toList
  | float isNegative n => Text.float isNegative n
  | string s => Text.string s
  | array [] _ => ['[', ']']
  | array (j :: js) _ => '[' :: (chars j ++ itemChars js)
  | object [] _ => ['\x7b', '\x7d']
  | object (m :: ms) _ => '\x7b' :: (memberChars m ++ membersChars ms)
  | malformed => []
termination_by structural j => j

/-- The characters of the further items of a list and its end. -/
def itemChars : List Json → List Char
  | [] => [']']
  | j :: js => ',' :: (chars j ++ itemChars js)
termination_by structural js => js

/-- The characters of the further members of an object and its end. -/
def membersChars : List (String × Json) → List Char
  | [] => ['\x7d']
  | m :: ms => ',' :: (memberChars m ++ membersChars ms)
termination_by structural ms => ms

def memberChars : String × Json → List Char
  | (key, j) => Text.string key ++ ':' :: chars j
termination_by structural m => m

end

def text (j : Json) : String :=
  String.ofList j.chars

def ofStrings (ss : List String) : Json :=
  array (ss.map string) true

/-- A value that may be missing. -/
def ofOption {α : Type} (write : α → Json) : Option α → Json
  | some a => write a
  | none => null

def ofAssoc {α : Type} (write : α → Json) (m : Assoc α) : Json :=
  object (m.entries.map fun e => (e.1, write e.2)) true

end DefineBundle.Json
