import DefineBundle.Proofs.Script.Literals
import DefineBundle.Text.PlainAscii

/-!
# Characters in plain form

In the plain form of a text each character that is not plain is an escape with four digits, or two
of them for the two units of a character beyond U+FFFF. A text is steady when none of its characters
would become something else by that: none stands behind a backslash that escapes it, none is a space
or ends a line, and none that a name may hold needs two units.
-/
namespace DefineBundle.Script.PlainForm

open DefineBundle.Text DefineBundle.Text.PlainAscii DefineBundle.Script.Literal

variable {c d : Char} {cs ds more : List Char} {n : Nat}

/-- The plain form of characters. -/
def plain (cs : List Char) : List Char :=
  cs.flatMap encodeChar

theorem plain_nil : plain [] = [] :=
  rfl

theorem plain_append (cs ds : List Char) : plain (cs ++ ds) = plain cs ++ plain ds :=
  List.flatMap_append

theorem plain_cons (hc : isPlain c = true) (cs : List Char) : plain (c :: cs) = c :: plain cs := by
  rw [plain, List.flatMap_cons, encodeChar, if_pos hc]
  rfl

theorem plain_eq_self (h : ∀ c ∈ cs, isPlain c = true) : plain cs = cs := by
  induction cs with
  | nil => rfl
  | cons c cs ih =>
      rw [List.forall_mem_cons] at h
      rw [plain_cons h.1, ih h.2]

/-- The number that so many hexadecimal digits go on with, and the characters after them. -/
def hexDigits? : Nat → Nat → List Char → Option (Nat × List Char)
  | 0, n, cs => some (n, cs)
  | k + 1, n, d :: cs => (hexValue? d).bind fun v => hexDigits? k (16 * n + v) cs
  | _ + 1, _, [] => none

/-- The unit that four hexadecimal digits write, and the characters after them. -/
def unit? (cs : List Char) : Option (Nat × List Char) :=
  hexDigits? 4 0 cs

theorem hexValue?_hexDigit (n : Nat) : hexValue? (hexDigit n) = some (n % 16) := by
  have h : n % 16 < 16 := Nat.mod_lt _ (by decide)
  unfold hexDigit
  generalize n % 16 = m at h
  revert h m
  decide

theorem unit?_escapeUnit (hn : n < 0x10000) (cs : List Char) :
    unit? ((escapeUnit n).drop 2 ++ cs) = some (n, cs) := by
  simp only [escapeUnit, List.drop_succ_cons, List.drop_zero, List.cons_append, List.nil_append,
    unit?, hexDigits?, hexValue?_hexDigit, Option.bind_some, Option.some.injEq, Prod.mk.injEq,
    and_true]
  omega

theorem head?_ne_brace (h : unit? cs = some (n, more)) : cs.head? ≠ some '\x7b' := by
  intro he
  obtain ⟨ds, rfl⟩ := List.head?_eq_some_iff.mp he
  cases h

/-- How the plain form of a character that is not plain reads in front of more characters: as an
escape of its only unit or of both. -/
inductive Escaped (c : Char) (more : List Char) : List Char → Prop
  | unit {ds : List Char} (hc : c.toNat < 0x10000) (hn : unit? ds = some (c.toNat, more)) :
      Escaped c more ('\\' :: 'u' :: ds)
  | pair {ds es : List Char} {high low : Nat} (hc : 0x10000 ≤ c.toNat) (hhigh : isHigh high = true)
      (hlow : isLow low = true) (hpair : pairValue high low = c.toNat)
      (hn : unit? ds = some (high, '\\' :: 'u' :: es)) (hm : unit? es = some (low, more)) :
      Escaped c more ('\\' :: 'u' :: ds)

theorem escaped_plain_cons (hc : isPlain c = false) (cs : List Char) :
    Escaped c (plain cs) (plain (c :: cs)) := by
  have hrange : c.toNat < 0x110000 := by
    have hvalid := c.valid
    simp only [UInt32.isValidChar, Nat.isValidChar] at hvalid
    rcases hvalid with h | h
    · exact Nat.lt_trans h (by decide)
    · exact h.2
  have hplain : plain (c :: cs) = (units c).flatMap escapeUnit ++ plain cs := by
    rw [plain, List.flatMap_cons, encodeChar, if_neg (by simp [hc])]
    rfl
  rw [hplain, units]
  split
  · rename_i hsmall
    exact .unit hsmall (unit?_escapeUnit hsmall (plain cs))
  · rename_i hlarge
    have hhigh : 0xD800 + (c.toNat - 0x10000) / 0x400 < 0xDC00 := by omega
    have hlow : 0xDC00 + (c.toNat - 0x10000) % 0x400 < 0xE000 := by omega
    refine .pair (by omega) ?_ ?_ ?_ (unit?_escapeUnit (Nat.lt_trans hhigh (by decide)) _)
      (unit?_escapeUnit (Nat.lt_trans hlow (by decide)) _)
    · simp only [isHigh, Bool.and_eq_true, decide_eq_true_eq]
      omega
    · simp only [isLow, Bool.and_eq_true, decide_eq_true_eq]
      omega
    · unfold pairValue
      omega

/-- A character that stays what it is in plain form, when it is not escaped. -/
def isSteadyChar (c : Char) : Bool :=
  isPlain c ||
    !(Trivia.isSpace c || isLineEnd c || (decide (0x10000 ≤ c.toNat) && isNamePart c))

/-- Whether all characters stay what they are in plain form; `isEscaped` when a backslash in front
escapes the first. -/
def isSteady (isEscaped : Bool) : List Char → Bool
  | [] => true
  | c :: cs =>
      (isPlain c || (!isEscaped && isSteadyChar c)) && isSteady (c == '\\' && !isEscaped) cs

theorem isSteady_cons_of_ne {e : Bool} (hc : c ≠ '\\') (h : isSteady e (c :: cs) = true) :
    isSteady false cs = true := by
  rw [isSteady, Bool.and_eq_true, beq_false_of_ne hc] at h
  exact h.2

/-- A character behind a backslash is plain. -/
theorem isSteady_escape (h : isSteady false ('\\' :: c :: cs) = true) :
    isPlain c = true ∧ isSteady false cs = true := by
  simp only [isSteady, Bool.not_false, Bool.not_true, Bool.and_false, Bool.and_true,
    Bool.false_and, Bool.or_false, Bool.and_eq_true, beq_self_eq_true] at h
  exact h.2

theorem isSteadyChar_of_isSteady (h : isSteady false (c :: cs) = true) : isSteadyChar c = true := by
  rw [isSteady, Bool.and_eq_true, Bool.not_false, Bool.true_and, Bool.or_eq_true] at h
  rcases h.1 with h | h
  · simp [isSteadyChar, h]
  · exact h

theorem isSteady_cons (hc : isSteadyChar c = true) (hne : c ≠ '\\') (h : isSteady false cs = true) :
    isSteady false (c :: cs) = true := by
  rw [isSteady, beq_false_of_ne hne]
  simp [hc, h]

theorem isSteady_cons_escape (hc : isPlain c = true) (h : isSteady false cs = true) :
    isSteady false ('\\' :: c :: cs) = true := by
  simp only [isSteady]
  simp [hc, h, show isPlain '\\' = true from rfl]

section Stray

variable (hc : isPlain c = false) (hs : isSteadyChar c = true)
include hc

theorem ne_of_not_isPlain (hd : isPlain d = true) : c ≠ d := by
  rintro rfl
  rw [hc] at hd
  cases hd

include hs

theorem isSpace_eq_false : Trivia.isSpace c = false := by
  simp only [isSteadyChar, hc, Bool.false_or, Bool.not_eq_true', Bool.or_eq_false_iff] at hs
  exact hs.1.1

theorem isLineEnd_eq_false : isLineEnd c = false := by
  simp only [isSteadyChar, hc, Bool.false_or, Bool.not_eq_true', Bool.or_eq_false_iff] at hs
  exact hs.1.2

theorem isStray_eq_true : isStray c = true := by
  simp [isStray, hc, isSpace_eq_false hc hs, isLineEnd_eq_false hc hs]

/-- What a name may hold has one unit. -/
theorem isNamePart_eq_false_of_le (hlarge : 0x10000 ≤ c.toNat) : isNamePart c = false := by
  simp only [isSteadyChar, hc, Bool.false_or, Bool.not_eq_true', Bool.or_eq_false_iff,
    hlarge, decide_true, Bool.true_and] at hs
  exact hs.2

end Stray

end DefineBundle.Script.PlainForm
