/-!
# Numerals

The value of a number literal is a binary64 number, kept as the shortest decimal that reads back
to it. Reading rounds an exact fraction to the nearest binary64 number, a tie to the even
neighbour, and then looks for the first decimal grid with a point that rounds back; a run of digits
may also be rounded digit by digit. Writing chooses the shortest of the positional, exponent and
hexadecimal spellings.
-/
namespace DefineBundle.Script

/-- The value of a number literal: `digits · 10 ^ exponent` without trailing zeros in `digits`, or
too large for the format. -/
inductive Numeral
  | finite (digits : Nat) (exponent : Int)
  | infinite
  deriving DecidableEq, Repr, Inhabited

namespace Numeral

/-- A binary64 number `mantissa · 2 ^ exponent` without sign. -/
structure Binary where
  mantissa : Nat
  exponent : Int
  deriving DecidableEq, Repr

def twoTo (e : Int) : Nat :=
  Nat.pow 2 e.toNat

def tenTo (e : Int) : Nat :=
  Nat.pow 10 e.toNat

/-- `num / den` divided by `2 ^ q`, as a fraction. -/
def scaled (num den : Nat) (q : Int) : Nat × Nat :=
  if 0 ≤ q then (num, den * twoTo q) else (num * twoTo (-q), den)

/-- The quotient rounded to the nearest whole number, a half to the even neighbour. -/
def roundHalfEven (num den : Nat) : Nat :=
  let f := num / den
  let r := 2 * (num % den)
  if r < den then f else if den < r then f + 1 else f + f % 2

/-- The exponent of the last place of the binary64 number nearest to `num / den`. -/
def lastPlace (num den : Nat) : Int :=
  let guess : Int := (Nat.log2 num : Int) - (Nat.log2 den : Int) - 52
  let (n, d) := scaled num den guess
  let q := if n / d < twoTo 52 then guess - 1 else guess
  max q (-1074)

/-- The binary64 number nearest to the positive fraction `num / den`, `none` past the largest. -/
def nearestBinary (num den : Nat) : Option Binary :=
  let q := lastPlace num den
  let (n, d) := scaled num den q
  let m := roundHalfEven n d
  let b : Binary := if m = twoTo 53 then ⟨twoTo 52, q + 1⟩ else ⟨m, q⟩
  if b.exponent ≤ 971 then some b else none

/-- The binary64 number nearest to the fraction `num / den`, which may be zero. -/
def nearest (num den : Nat) : Option Binary :=
  if num = 0 then some ⟨0, 0⟩ else nearestBinary num den

def Binary.num (b : Binary) : Nat :=
  b.mantissa * twoTo b.exponent

def Binary.den (b : Binary) : Nat :=
  twoTo (-b.exponent)

def Binary.times? (a b : Binary) : Option Binary :=
  nearest (a.num * b.num) (a.den * b.den)

/-- The rounded quotient by a number other than zero. -/
def Binary.over? (a b : Binary) : Option Binary :=
  nearest (a.num * b.den) (a.den * b.num)

/-- The number that digits write in a base, rounded after each digit. -/
def digitByDigit (base : Nat) (digits : List Nat) : Option Binary :=
  digits.foldlM (fun b d => nearest (base * b.num + d * b.den) b.den) ⟨0, 0⟩

/-- The exponent of the first decimal digit of a positive binary64 number. -/
def leadingPlace (b : Binary) : Int :=
  let (n, d) := scaled (b.mantissa * tenTo 400) 1 (-b.exponent)
  ((Nat.toDigits 10 (n / d)).length : Int) - 401

/-- Whether `x · 10 ^ s` rounds to `b`: it lies in the interval around `b`, whose ends count when
the mantissa is even. The comparison is made in quarters of the last place. -/
def roundsTo (b : Binary) (x : Nat) (s : Int) : Bool :=
  let unit := b.exponent - 2
  let scaleX := tenTo s * twoTo (-unit)
  let scaleU := twoTo unit * tenTo (-s)
  let below := if b.mantissa = twoTo 52 && -1074 < b.exponent then 1 else 2
  let low := (4 * b.mantissa - below) * scaleU
  let high := (4 * b.mantissa + 2) * scaleU
  let v := x * scaleX
  if b.mantissa % 2 = 0 then low ≤ v && v ≤ high else low < v && v < high

/-- The neighbour of `b` on the grid of step `10 ^ s` that rounds back to `b`, the nearer one if
both do. -/
def gridPoint (b : Binary) (s : Int) : Option Nat :=
  let num := b.num * tenTo (-s)
  let den := b.den * tenTo s
  let f := num / den
  let r := 2 * (num % den)
  let upper := decide (den < r) || (decide (r = den) && f % 2 == 1)
  let (first, second) := if upper then (f + 1, f) else (f, f + 1)
  if roundsTo b first s then some first
  else if roundsTo b second s then some second
  else none

/-- The digits without trailing zeros, and the exponent raised accordingly. -/
def stripZeros : Nat → Nat → Int → Nat × Int
  | 0, d, e => (d, e)
  | n + 1, d, e => if d ≠ 0 && d % 10 = 0 then stripZeros n (d / 10) (e + 1) else (d, e)

/-- The shortest decimal that rounds to `b`, trying one more digit at a time. -/
def shortestFrom (b : Binary) (top : Int) : List Nat → Numeral
  | [] => .infinite
  | n :: ns =>
      let s := top - n
      match gridPoint b s with
      | some d => let (d, e) := stripZeros 400 d s; .finite d e
      | none => shortestFrom b top ns

/-- The shortest decimal that rounds to `b`; seventeen digits always suffice. -/
def shortest (b : Binary) : Numeral :=
  if b.mantissa = 0 then .finite 0 0 else shortestFrom b (leadingPlace b) (List.range 18)

/-- The value of a binary64 number, infinite when it is past the largest. -/
def ofBinary : Option Binary → Numeral
  | some b => shortest b
  | none => .infinite

/-- The value of the exact fraction `num / den`. -/
def ofFraction (num den : Nat) : Numeral :=
  ofBinary (nearest num den)

/-- The value that digits write in a base: up to `exact` of them are rounded once, more of them
digit by digit. -/
def ofDigits (base exact : Nat) (digits : List Nat) : Numeral :=
  if digits.length ≤ exact then ofFraction (digits.foldl (fun n d => base * n + d) 0) 1
  else ofBinary (digitByDigit base digits)

/-- The value of `digits · 10 ^ exponent`. An exponent far out of range decides alone. -/
def ofDecimal (digits : Nat) (exponent : Int) : Numeral :=
  let size : Int := (Nat.toDigits 10 digits).length + exponent
  if digits = 0 || size < -400 then .finite 0 0
  else if 400 < size then .infinite
  else if 0 ≤ exponent then ofFraction (digits * tenTo exponent) 1
  else ofFraction digits (tenTo (-exponent))

/-- The whole number a value stands for, `none` when it has a fractional part. -/
def whole? : Numeral → Option Nat
  | .finite d e =>
      if 0 ≤ e then
        match nearestBinary (d * tenTo e) 1 with
        | some b =>
            let (n, k) := scaled b.mantissa 1 (-b.exponent)
            some (n / k)
        | none => some 0
      else none
  | .infinite => none

def decimal (n : Nat) : List Char :=
  Nat.toDigits 10 n

def exponentText (e : Int) : List Char :=
  if e < 0 then '-' :: decimal e.natAbs else decimal e.natAbs

/-- The usual spelling: positional for places from `10 ^ -7` up to `10 ^ 21`, with exponent
outside; a zero before the point is left out. -/
def plain (digits : Nat) (exponent : Int) : List Char :=
  let ds := decimal digits
  let point : Int := ds.length + exponent
  if 0 ≤ exponent && point ≤ 21 then ds ++ List.replicate exponent.toNat '0'
  else if 0 < point && point ≤ 21 then ds.take point.toNat ++ '.' :: ds.drop point.toNat
  else if -6 < point && point ≤ 0 then '.' :: List.replicate (-point).toNat '0' ++ ds
  else
    let tail := 'e' :: exponentText (point - 1)
    match ds with
    | [d] => d :: tail
    | d :: rest => d :: '.' :: rest ++ tail
    | [] => tail

/-- The spellings to choose from, in order of preference: the usual one, hexadecimal for whole
numbers, and an exponent form that drops leading or trailing zeros or moves the point away. -/
def spellings (digits : Nat) (exponent : Int) : List (List Char) :=
  let usual := plain digits exponent
  let hexadecimal := match whole? (.finite digits exponent) with
    | some n => [['0', 'x'] ++ Nat.toDigits 16 (min n (twoTo 128 - 1))]
    | none => []
  let ds := decimal digits
  let leading := match usual with
    | '.' :: '0' :: _ => [ds ++ 'e' :: exponentText exponent]
    | _ => []
  let trailing :=
    if usual.getLast? == some '0' then
      let zeros := (usual.reverse.takeWhile (· == '0')).length
      if usual.contains 'e' then [] else [usual.take (usual.length - zeros) ++ 'e' :: decimal zeros]
    else []
  let shifted :=
    if usual.contains '.' && usual.contains 'e' then [ds ++ 'e' :: exponentText exponent] else []
  usual :: (hexadecimal ++ leading ++ trailing ++ shifted)

def firstShortest : List Char → List (List Char) → List Char
  | best, [] => best
  | best, t :: ts => firstShortest (if t.length < best.length then t else best) ts

/-- The text of a finite value. Whole numbers below a thousand are written positionally. -/
def text (digits : Nat) (exponent : Int) : List Char :=
  if 0 ≤ exponent && digits * tenTo exponent < 1000 then
    decimal (digits * tenTo exponent)
  else
    match spellings digits exponent with
    | [] => []
    | t :: ts => firstShortest t ts

end Numeral

end DefineBundle.Script
