import DefineBundle.Json.Value

/-!
# JSON numbers

A number is an integer when it is written as one and fits into 64 bits. Any other is a binary64
number, computed from as many leading digits as a word of 64 bits holds and one power of ten: the
word is rounded, and then multiplied or divided by the rounded power. The result can differ from
the nearest number in its last places.
-/
namespace DefineBundle.Json.Number

open DefineBundle.Script (Numeral Numeral.Binary Numeral.nearest Numeral.tenTo)

def wordLimit : Nat :=
  Nat.pow 2 64

def exponentLimit : Int :=
  2147483647

def digit (c : Char) : Nat :=
  c.toNat - 48

/-- The word that digits continue, and the digits from the first on that it cannot take. -/
def extend : Nat → List Char → Nat × List Char
  | n, [] => (n, [])
  | n, c :: cs =>
      let m := 10 * n + digit c
      if m < wordLimit then extend m cs else (n, c :: cs)

/-- The binary64 number nearest to a power of ten in range. -/
def power (e : Int) : Numeral.Binary :=
  (Numeral.nearest (Numeral.tenTo e) 1).getD ⟨1, 0⟩

/-- A number times a power of ten; none when it is too large. Powers of ten that are no binary64
numbers are taken in two steps, and below `10 ^ -616` nothing is left of a word. -/
def scaled? (b : Numeral.Binary) (e : Int) : Option Numeral.Binary :=
  if 308 < e then if b.mantissa = 0 then some b else none
  else if 0 ≤ e then b.times? (power e)
  else if -308 ≤ e then b.over? (power (-e))
  else if -616 ≤ e then do (← b.over? (power 308)).over? (power (-e - 308))
  else some ⟨0, 0⟩

/-- A number from its word, a power of ten and its sign. -/
def ofWord? (isNegative : Bool) (word : Nat) (e : Int) : Option Json := do
  let b ← scaled? (← Numeral.nearest word 1) e
  return .float isNegative (.shortest b)

/-- The parts of a number as it is written. -/
structure Written where
  isNegative : Bool
  whole : List Char
  fraction : List Char
  /-- The exponent, if there is one. -/
  exponent : Option Int

/-- The value of a number; none when it is too large. -/
def Written.value? (w : Written) : Option Json :=
  let (word, above) := extend 0 w.whole
  let (word', below) := extend word w.fraction
  let before : Int := above.length
  let start := before - (w.fraction.length - below.length : Nat)
  match w.exponent with
  | some e =>
      if exponentLimit < e.natAbs then
        if word' ≠ 0 && 0 ≤ e then none else some (.float w.isNegative (.finite 0 0))
      else ofWord? w.isNegative word' (max (-exponentLimit - 1) (min exponentLimit (start + e)))
  | none =>
      if !above.isEmpty || !w.fraction.isEmpty then ofWord? w.isNegative word' start
      else if !w.isNegative then some (.integer word)
      else if word = 0 || Nat.pow 2 63 < word then ofWord? true word 0
      else some (.integer (-(word : Int)))

end DefineBundle.Json.Number
