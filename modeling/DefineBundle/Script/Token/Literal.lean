import DefineBundle.Script.Token.Trivia
import DefineBundle.Text.IdentifierChars
import DefineBundle.Text.PlainAscii

/-!
# Literals and names

Reading of names with their escapes, number literals, string literals, the chunks of template
literals and regular expressions. Each reader takes the characters from the start of the literal
and returns its content with the characters after it, or nothing when it is malformed.
-/
namespace DefineBundle.Script.Literal

open DefineBundle.Text

def hexValue? (c : Char) : Option Nat :=
  if '0' ≤ c && c ≤ '9' then some (c.toNat - 48)
  else if 'a' ≤ c && c ≤ 'f' then some (c.toNat - 87)
  else if 'A' ≤ c && c ≤ 'F' then some (c.toNat - 55)
  else none

def hexNumber? (cs : List Char) : Option Nat :=
  cs.foldlM (fun n c => (hexValue? c).map (16 * n + ·)) 0

/-- The character of a code point, unless it is a surrogate or out of range. -/
def charOf? (n : Nat) : Option Char :=
  if n < 0xD800 || (0xDFFF < n && n < 0x110000) then some (Char.ofNat n) else none

/-- A character that no token but a name can begin with, and that is no space. -/
def isStray (c : Char) : Bool :=
  !(PlainAscii.isPlain c || Trivia.isSpace c || isLineEnd c)

/-- The rest of a name, in reverse; `code` holds the number read so far inside `\u{…}`. A name must
not run into a stray character. -/
def nameTail (accept : List Char → Char → Bool) :
    Option (Option Nat) → List Char → Bool → List Char → Option (List Char × Bool × List Char)
  | some code, acc, _, '}' :: cs =>
      match code.bind charOf? with
      | some c => if accept acc c then nameTail accept none (c :: acc) true cs else none
      | none => none
  | some code, acc, e, d :: cs =>
      match hexValue? d with
      | some v =>
          let n := 16 * code.getD 0 + v
          if n < 0x110000 then nameTail accept (some (some n)) acc e cs else none
      | none => none
  | some _, _, _, [] => none
  | none, acc, _, '\\' :: 'u' :: '{' :: cs => nameTail accept (some none) acc true cs
  | none, acc, _, '\\' :: 'u' :: a :: b :: c :: d :: cs =>
      match (hexNumber? [a, b, c, d]).bind charOf? with
      | some ch => if accept acc ch then nameTail accept none (ch :: acc) true cs else none
      | none => none
  | none, acc, e, c :: cs =>
      if c == '\\' then none
      else if accept acc c then nameTail accept none (c :: acc) e cs
      else if isStray c then none
      else some (acc, e, c :: cs)
  | none, acc, e, [] => some (acc, e, [])

/-- Whether a character may come next in a name. -/
def fitsName (acc : List Char) (c : Char) : Bool :=
  if acc.isEmpty then isNameStart c else isNamePart c

/-- A name, whether it was written with escapes, and the characters after it. -/
def name? (cs : List Char) : Option (String × Bool × List Char) :=
  match nameTail fitsName none [] false cs with
  | some ([], _) => none
  | some (acc, e, rest) => some (String.ofList acc.reverse, e, rest)
  | none => none

/-- Digits with single separators between them: the digits alone, and what follows. -/
def digits? (isDigit : Char → Bool) (cs : List Char) : Option (List Char × List Char) :=
  let run := cs.takeWhile (fun c => isDigit c || c == '_')
  let rest := cs.drop run.length
  let doubled := (run.zip (run.drop 1)).any (fun p => p.1 == '_' && p.2 == '_')
  if run.head? == some '_' || run.getLast? == some '_' || doubled then none
  else some (run.filter (· != '_'), rest)

/-- How many digits a whole number may have to be rounded once. -/
def exactDigits (base : Nat) : Nat :=
  if base ≤ 2 then 64 else if base ≤ 8 then 21 else if base ≤ 10 then 19 else 16

def valueIn (base : Nat) (ds : List Char) : Nat :=
  ds.foldl (fun n c => base * n + (hexValue? c).getD 0) 0

/-- The value of a whole number. One of more digits than a word of 64 bits always holds is rounded
digit by digit. -/
def wholeIn (base : Nat) (ds : List Char) : Numeral :=
  .ofDigits base (exactDigits base) (ds.map fun c => (hexValue? c).getD 0)

/-- A number must not run into a name, another digit or a stray character. -/
def endsNumber : List Char → Bool
  | c :: _ => !(isNameStart c || c.isDigit || c == '\\' || isStray c)
  | [] => true

def closed (t : Token) (rest : List Char) : Option (Token × List Char) :=
  if endsNumber rest then some (t, rest) else none

/-- A literal in base two, eight or sixteen after its two character mark. -/
def based? (mark : List Char) (base : Nat) (isDigit : Char → Bool) (cs : List Char) :
    Option (Token × List Char) := do
  let (ds, rest) ← digits? isDigit cs
  if ds.isEmpty then none
  else match rest with
    | 'n' :: rest => closed (.bigInt (String.ofList (mark ++ ds))) rest
    | _ => closed (.number (wholeIn base ds)) rest

def exponentDigits? (cs : List Char) : Option (Nat × List Char) := do
  let (ds, rest) ← digits? Char.isDigit cs
  if ds.isEmpty then none else some (valueIn 10 ds, rest)

def signedExponent? : List Char → Option (Int × List Char)
  | '-' :: cs => (exponentDigits? cs).map fun (n, r) => (-(n : Int), r)
  | '+' :: cs => (exponentDigits? cs).map fun (n, r) => ((n : Int), r)
  | cs => (exponentDigits? cs).map fun (n, r) => ((n : Int), r)

/-- The exponent part of a decimal literal, zero when there is none. -/
def exponent? : List Char → Option (Int × List Char)
  | 'e' :: cs => signedExponent? cs
  | 'E' :: cs => signedExponent? cs
  | cs => some (0, cs)

/-- The fraction digits after a point, and what follows. -/
def fraction? (cs : List Char) : Option (List Char × List Char) :=
  digits? Char.isDigit cs

/-- The part of a decimal literal after its whole digits. -/
def decimalTail? (whole : List Char) (mayBeBig : Bool) (cs : List Char) :
    Option (Token × List Char) :=
  match cs with
  | 'n' :: rest => if mayBeBig then closed (.bigInt (String.ofList whole)) rest else none
  | '.' :: cs => do
      let (frac, cs) ← fraction? cs
      let (e, cs) ← exponent? cs
      closed (.number (.ofDecimal (valueIn 10 (whole ++ frac)) (e - frac.length))) cs
  | c :: cs =>
      if c == 'e' || c == 'E' then do
        let (e, cs) ← signedExponent? cs
        closed (.number (.ofDecimal (valueIn 10 whole) e)) cs
      else closed (.number (wholeIn 10 whole)) (c :: cs)
  | [] => some (.number (wholeIn 10 whole), [])

/-- A number literal that starts with a digit or with a point before a digit. -/
def number? (cs : List Char) : Option (Token × List Char) :=
  let isBinary := fun c => c == '0' || c == '1'
  let isOctal := fun c => '0' ≤ c && c ≤ '7'
  let isHex := fun c => (hexValue? c).isSome
  match cs with
  | '0' :: 'x' :: r => based? ['0', 'x'] 16 isHex r
  | '0' :: 'X' :: r => based? ['0', 'X'] 16 isHex r
  | '0' :: 'o' :: r => based? ['0', 'o'] 8 isOctal r
  | '0' :: 'O' :: r => based? ['0', 'O'] 8 isOctal r
  | '0' :: 'b' :: r => based? ['0', 'b'] 2 isBinary r
  | '0' :: 'B' :: r => based? ['0', 'B'] 2 isBinary r
  | '0' :: d :: r =>
      if d.isDigit then
        let ds := (d :: r).takeWhile Char.isDigit
        let rest := (d :: r).drop ds.length
        if ds.all isOctal then closed (.number (wholeIn 8 ds)) rest
        else decimalTail? ('0' :: ds) false rest
      else decimalTail? ['0'] true (d :: r)
  | '.' :: _ => decimalTail? [] false cs
  | _ => do
      let (ds, rest) ← digits? Char.isDigit cs
      decimalTail? ds true rest

def isHigh (n : Nat) : Bool :=
  0xD800 ≤ n && n ≤ 0xDBFF

def isLow (n : Nat) : Bool :=
  0xDC00 ≤ n && n ≤ 0xDFFF

def pairValue (high low : Nat) : Nat :=
  0x10000 + (high - 0xD800) * 0x400 + (low - 0xDC00)

def hex4 (n : Nat) : List Char :=
  let ds := Nat.toDigits 16 n
  List.replicate (4 - ds.length) '0' ++ ds

/-- The text of code points. Where one is a lone surrogate, each such and each U+FFFD is written
as U+FFFD and four hexadecimal digits, and the flag is set. -/
def textOf (points : List Nat) : String × Bool :=
  if points.any (fun n => (charOf? n).isNone) then
    let write := fun n => match charOf? n with
      | some '\ufffd' => '\ufffd' :: hex4 0xFFFD
      | some c => [c]
      | none => '\ufffd' :: hex4 n
    (String.ofList (points.flatMap write), true)
  else (String.ofList (points.filterMap charOf?), false)

/-- The code point of a character after a backslash that stands for itself or for a control
character. -/
def simpleEscape (c : Char) : Nat :=
  match c with
  | 'n' => 10
  | 't' => 9
  | 'r' => 13
  | 'b' => 8
  | 'v' => 11
  | 'f' => 12
  | _ => c.toNat

def isOctalDigit (c : Char) : Bool :=
  '0' ≤ c && c ≤ '7'

def octal (c : Char) : Nat :=
  c.toNat - 48

/-- The code points of a string literal after its opening quote, in reverse, and the characters
after the closing one; `code` holds the number read so far inside `\u{…}`. Two surrogates make one
code point only when both are written with four digits, side by side. -/
def stringTail (quote : Char) :
    Option (Option Nat) → List Nat → List Char → Option (List Nat × List Char)
  | some code, acc, '}' :: cs => code.bind fun n => stringTail quote none (n :: acc) cs
  | some code, acc, d :: cs =>
      match hexValue? d with
      | some v =>
          let n := 16 * code.getD 0 + v
          if n < 0x110000 then stringTail quote (some (some n)) acc cs else none
      | none => none
  | some _, _, [] => none
  | none, acc, '\\' :: 'u' :: '{' :: cs => stringTail quote (some none) acc cs
  | none, acc, '\\' :: 'u' :: a :: b :: c :: d :: '\\' :: 'u' :: e :: f :: g :: h :: cs =>
      match hexNumber? [a, b, c, d] with
      | some n =>
          match hexNumber? [e, f, g, h] with
          | some m =>
              if isHigh n && isLow m then stringTail quote none (pairValue n m :: acc) cs
              else stringTail quote none (n :: acc) ('\\' :: 'u' :: e :: f :: g :: h :: cs)
          | none => stringTail quote none (n :: acc) ('\\' :: 'u' :: e :: f :: g :: h :: cs)
      | none => none
  | none, acc, '\\' :: 'u' :: a :: b :: c :: d :: cs =>
      match hexNumber? [a, b, c, d] with
      | some n => stringTail quote none (n :: acc) cs
      | none => none
  | none, acc, '\\' :: 'x' :: a :: b :: cs =>
      match hexNumber? [a, b] with
      | some n => stringTail quote none (n :: acc) cs
      | none => none
  | none, acc, '\\' :: '\r' :: '\n' :: cs => stringTail quote none acc cs
  | none, acc, '\\' :: a :: b :: c :: cs =>
      if a == 'u' || a == 'x' then none
      else if isLineEnd a then stringTail quote none acc (b :: c :: cs)
      else if isOctalDigit a then
        if isOctalDigit b then
          if a ≤ '3' && isOctalDigit c then
            stringTail quote none ((octal a * 64 + octal b * 8 + octal c) :: acc) cs
          else stringTail quote none ((octal a * 8 + octal b) :: acc) (c :: cs)
        else stringTail quote none (octal a :: acc) (b :: c :: cs)
      else stringTail quote none (simpleEscape a :: acc) (b :: c :: cs)
  | none, acc, '\\' :: a :: b :: cs =>
      if a == 'u' || a == 'x' then none
      else if isLineEnd a then stringTail quote none acc (b :: cs)
      else if isOctalDigit a then
        if isOctalDigit b then stringTail quote none ((octal a * 8 + octal b) :: acc) cs
        else stringTail quote none (octal a :: acc) (b :: cs)
      else stringTail quote none (simpleEscape a :: acc) (b :: cs)
  | none, acc, c :: cs =>
      if c == quote then some (acc, cs)
      else if c == '\\' || c == '\n' || c == '\r' then none
      else stringTail quote none (c.toNat :: acc) cs
  | none, _, [] => none

/-- The characters of a string literal after its opening quote as they are written. -/
def written (quote : Char) : List Char → List Char
  | [] => []
  | '\\' :: c :: cs => '\\' :: c :: written quote cs
  | c :: cs => if c == quote then [] else c :: written quote cs

/-- A string literal from its opening quote on. -/
def string? : List Char → Option (Token × List Char)
  | quote :: cs => do
      let (points, rest) ← stringTail quote none [] cs
      let (value, lone) := textOf points.reverse
      some (.string value lone (String.ofList (written quote cs)), rest)
  | [] => none

/-- Whether every escape of a template chunk has a value. -/
def hasValue : List Char → Bool
  | '\\' :: 'u' :: '{' :: cs =>
      let ds := cs.takeWhile (· != '}')
      let n := (hexNumber? ds).getD 0x110000
      ds.length < cs.length && !ds.isEmpty && n < 0x110000 && hasValue cs
  | '\\' :: 'u' :: a :: b :: c :: d :: cs => (hexNumber? [a, b, c, d]).isSome && hasValue cs
  | '\\' :: 'x' :: a :: b :: cs => (hexNumber? [a, b]).isSome && hasValue cs
  | '\\' :: '0' :: c :: cs => !c.isDigit && hasValue (c :: cs)
  | '\\' :: c :: cs => !(c == 'u' || c == 'x' || ('1' ≤ c && c ≤ '9')) && hasValue cs
  | _ :: cs => hasValue cs
  | [] => true

/-- The raw characters of a template chunk in reverse, whether it ends the template, and the
characters after it. A line end of two characters counts as one. -/
def chunkTail : List Char → List Char → Option (List Char × Bool × List Char)
  | acc, '`' :: cs => some (acc, true, cs)
  | acc, '$' :: '{' :: cs => some (acc, false, cs)
  | acc, '\\' :: '\r' :: '\n' :: cs => chunkTail ('\n' :: '\\' :: acc) cs
  | acc, '\\' :: '\r' :: cs => chunkTail ('\n' :: '\\' :: acc) cs
  | acc, '\\' :: c :: cs => chunkTail (c :: '\\' :: acc) cs
  | acc, '\r' :: '\n' :: cs => chunkTail ('\n' :: acc) cs
  | acc, '\r' :: cs => chunkTail ('\n' :: acc) cs
  | acc, c :: cs => chunkTail (c :: acc) cs
  | _, [] => none

/-- A template chunk: its raw text, whether its escapes have values, whether it ends the
template, and the characters after it. -/
def chunk? (cs : List Char) : Option (String × Bool × Bool × List Char) :=
  match chunkTail [] cs with
  | some (acc, isLast, rest) =>
      let raw := acc.reverse
      some (String.ofList raw, hasValue raw, isLast, rest)
  | none => none

/-- The pattern of a regular expression after its slash, in reverse, and the characters after the
closing slash. A slash inside a class does not close. -/
def patternTail : Bool → List Char → List Char → Option (List Char × List Char)
  | inClass, acc, '\\' :: c :: cs =>
      if isLineEnd c then none else patternTail inClass (c :: '\\' :: acc) cs
  | inClass, acc, c :: cs =>
      if isLineEnd c then none
      else if c == '/' && !inClass then some (acc, cs)
      else patternTail (c == '[' || (inClass && c != ']')) (c :: acc) cs
  | _, _, [] => none

/-- The flags a regular expression may have, in the order in which they are written out. -/
def flagOrder : List Char :=
  ['d', 'g', 'i', 'm', 's', 'u', 'v', 'y']

/-- A character that goes on with the flags of a regular expression. -/
def isFlagChar (c : Char) : Bool :=
  c.isAlphanum || c == '$' || c == '_'

/-- A regular expression after its slash: pattern, ordered flags, and the characters after it. -/
def regex? (cs : List Char) : Option (String × String × List Char) := do
  let (acc, rest) ← patternTail false [] cs
  let flags := rest.takeWhile isFlagChar
  let rest := rest.drop flags.length
  if acc.isEmpty || !flags.all flagOrder.contains ||
      flags.length != flags.eraseDups.length then none
  else
    some (String.ofList acc.reverse, String.ofList (flagOrder.filter flags.contains), rest)

end DefineBundle.Script.Literal
