import DefineBundle.Json.Number
import DefineBundle.Script.Token.Literal

/-!
# Reading JSON

The tree of a text. Values may be nested up to a limit; a document that goes deeper is at fault
there, as is one with anything but space after its value, with a surrogate that has no partner, or
with a number too large for its format.
-/
namespace DefineBundle.Json

open DefineBundle.Script.Literal (hexNumber? charOf? isHigh isLow pairValue valueIn)

def depthLimit : Nat := 127

def isSpace (c : Char) : Bool :=
  c == ' ' || c == '\n' || c == '\t' || c == '\r'

def skipSpace (cs : List Char) : List Char :=
  cs.dropWhile isSpace

/-- The content of a string after its quote, in reverse, and the text after its end. -/
def stringTail : List Char → List Char → Option (List Char × List Char)
  | acc, '"' :: cs => some (acc, cs)
  | acc, '\\' :: 'u' :: a :: b :: c :: d :: '\\' :: 'u' :: e :: f :: g :: h :: cs =>
      match hexNumber? [a, b, c, d] with
      | none => none
      | some n =>
          if isHigh n then
            match hexNumber? [e, f, g, h] with
            | none => none
            | some m =>
                if isLow m then
                  stringTail (Char.ofNat (pairValue n m) :: acc) cs
                else none
          else
            match charOf? n with
            | some ch => stringTail (ch :: acc) ('\\' :: 'u' :: e :: f :: g :: h :: cs)
            | none => none
  | acc, '\\' :: 'u' :: a :: b :: c :: d :: cs =>
      match (hexNumber? [a, b, c, d]).bind charOf? with
      | some ch => stringTail (ch :: acc) cs
      | none => none
  | acc, '\\' :: e :: cs =>
      match e with
      | '"' => stringTail ('"' :: acc) cs
      | '\\' => stringTail ('\\' :: acc) cs
      | '/' => stringTail ('/' :: acc) cs
      | 'b' => stringTail ('\x08' :: acc) cs
      | 'f' => stringTail ('\x0c' :: acc) cs
      | 'n' => stringTail ('\n' :: acc) cs
      | 'r' => stringTail ('\r' :: acc) cs
      | 't' => stringTail ('\t' :: acc) cs
      | _ => none
  | acc, c :: cs => if c.toNat < 0x20 || c == '\\' then none else stringTail (c :: acc) cs
  | _, [] => none

/-- A string after its quote, and the text after its end. -/
def string? (cs : List Char) : Option (String × List Char) :=
  (stringTail [] cs).map fun (acc, rest) => (String.ofList acc.reverse, rest)

/-- Digits at the start of a text, and what follows. -/
def digits (cs : List Char) : List Char × List Char :=
  (cs.takeWhile Char.isDigit, cs.dropWhile Char.isDigit)

/-- The exponent of a number after its letter. -/
def exponent? (cs : List Char) : Option (Int × List Char) :=
  let isNegative := cs.head? == some '-'
  let cs := if isNegative || cs.head? == some '+' then cs.drop 1 else cs
  let (ds, rest) := digits cs
  if ds.isEmpty then none
  else some (if isNegative then -(valueIn 10 ds : Int) else valueIn 10 ds, rest)

/-- The fraction digits of a number, if there is a point, and what follows. -/
def fraction? : List Char → Option (List Char × List Char)
  | '.' :: cs => if (digits cs).1.isEmpty then none else some (digits cs)
  | cs => some ([], cs)

/-- The exponent of a number, if it has one, and what follows. -/
def tail? : List Char → Option (Option Int × List Char)
  | c :: cs =>
      if c == 'e' || c == 'E' then (exponent? cs).map fun (e, rest) => (some e, rest)
      else some (none, c :: cs)
  | [] => some (none, [])

/-- A number, and what follows. A leading zero stands alone. -/
def number? (cs : List Char) : Option (Json × List Char) :=
  let isNegative := cs.head? == some '-'
  let cs := if isNegative then cs.drop 1 else cs
  let (ds, rest) := digits cs
  match ds with
  | [] => none
  | '0' :: _ :: _ => none
  | _ => do
      let (fraction, rest) ← fraction? rest
      let (exponent, rest) ← tail? rest
      return (← Number.Written.value? ⟨isNegative, ds, fraction, exponent⟩, rest)

def word? (word : List Char) (value : Json) (cs : List Char) : Json × List Char :=
  if cs.take word.length == word then (value, cs.drop word.length) else (.malformed, [])

mutual

/-- The value at the start of a text, `depth` lists and objects deep, and what follows it. After a
fault nothing follows. -/
def valueFrom : Nat → Nat → List Char → Json × List Char
  | 0, _, _ => (.malformed, [])
  | n + 1, depth, cs =>
      match skipSpace cs with
      | [] => (.malformed, [])
      | c :: rest =>
          match c with
          | 'n' => word? ['n', 'u', 'l', 'l'] .null (c :: rest)
          | 't' => word? ['t', 'r', 'u', 'e'] (.bool true) (c :: rest)
          | 'f' => word? ['f', 'a', 'l', 's', 'e'] (.bool false) (c :: rest)
          | '"' =>
              match string? rest with
              | some (s, rest) => (.string s, rest)
              | none => (.malformed, [])
          | '[' =>
              if depthLimit ≤ depth then (.array [] false, [])
              else
                let (items, isClosed, rest) := itemsFrom n (depth + 1) true rest
                (.array items isClosed, rest)
          | '{' =>
              if depthLimit ≤ depth then (.object [] false, [])
              else
                let (members, isClosed, rest) := membersFrom n (depth + 1) true rest
                (.object members isClosed, rest)
          | _ =>
              match number? (c :: rest) with
              | some r => r
              | none => (.malformed, [])
termination_by structural n => n

/-- The items of a list up to its end, whether it has one, and what follows. -/
def itemsFrom : Nat → Nat → Bool → List Char → List Json × Bool × List Char
  | 0, _, _, _ => ([], false, [])
  | n + 1, depth, isFirst, cs =>
      match skipSpace cs with
      | ']' :: rest => ([], true, rest)
      | ',' :: rest =>
          if isFirst || (skipSpace rest).head? == some ']' then ([], false, [])
          else itemFrom n depth rest
      | c :: rest => if isFirst then itemFrom n depth (c :: rest) else ([], false, [])
      | [] => ([], false, [])
termination_by structural n => n

def itemFrom : Nat → Nat → List Char → List Json × Bool × List Char
  | 0, _, _ => ([], false, [])
  | n + 1, depth, cs =>
      let (j, rest) := valueFrom n depth cs
      let (items, isClosed, rest) := itemsFrom n depth false rest
      (j :: items, isClosed, rest)
termination_by structural n => n

/-- The members of an object up to its end, whether it has one, and what follows. -/
def membersFrom : Nat → Nat → Bool → List Char → List (String × Json) × Bool × List Char
  | 0, _, _, _ => ([], false, [])
  | n + 1, depth, isFirst, cs =>
      match skipSpace cs with
      | '}' :: rest => ([], true, rest)
      | ',' :: rest => if isFirst then ([], false, []) else memberFrom n depth (skipSpace rest)
      | c :: rest => if isFirst then memberFrom n depth (c :: rest) else ([], false, [])
      | [] => ([], false, [])
termination_by structural n => n

def memberFrom : Nat → Nat → List Char → List (String × Json) × Bool × List Char
  | 0, _, _ => ([], false, [])
  | n + 1, depth, cs =>
      match cs with
      | '"' :: rest =>
          match string? rest with
          | none => ([], false, [])
          | some (key, rest) =>
              match skipSpace rest with
              | ':' :: rest =>
                  let (j, rest) := valueFrom n depth rest
                  let (members, isClosed, rest) := membersFrom n depth false rest
                  ((key, j) :: members, isClosed, rest)
              | _ => ([(key, .malformed)], false, [])
      | _ => ([], false, [])
termination_by structural n => n

end

/-- The tree of a text, and whether nothing follows its value. -/
def parse (text : String) : Json × Bool :=
  let cs := text.toList
  let (j, rest) := valueFrom (3 * cs.length + 3) 0 cs
  (j, (skipSpace rest).isEmpty)

end DefineBundle.Json
