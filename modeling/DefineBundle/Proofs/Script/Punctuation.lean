import DefineBundle.Script.Token.Next

/-!
# Tokens by their first character

The first character decides whether a text begins with punctuation. What begins with no punctuation,
no quote and no digit is a name or nothing.
-/
namespace DefineBundle.Script.Token

variable {c : Char} {cs : List Char}

def markStarts : List Char :=
  ['{', '}', '(', ')', '[', ']', ';', ',', ':', '`', '@', '~', '.', '=', '!', '+', '-', '*', '/',
    '%', '<', '>', '&', '|', '^', '?']

def startsMark (c : Char) : Bool :=
  markStarts.contains c

theorem of_startsMark {p : Char → Bool} (hall : ∀ d ∈ markStarts, p d = true)
    (h : startsMark c = true) : p c = true :=
  hall c (List.contains_iff_mem.mp h)

theorem startsMark_of_punctuation? {z : Token × List Char} (h : punctuation? (c :: cs) = some z) :
    startsMark c = true := by
  rw [punctuation?.eq_def] at h
  split at h
  case h_60 => cases h
  all_goals
    rename_i he
    rw [(List.cons.inj he).1]
    rfl

theorem false_of_ne_cons {d : Char} (h : ∀ es, d :: cs = d :: es → False) : False :=
  h cs rfl

theorem startsMark_eq_false (h : punctuation? (c :: cs) = none) : startsMark c = false := by
  rw [punctuation?.eq_def] at h
  split at h
  case h_60 =>
    rw [Bool.eq_false_iff]
    intro hmem
    simp only [startsMark, markStarts, List.contains_cons, List.contains_nil, Bool.or_eq_true,
      beq_iff_eq, or_false, Bool.false_eq_true] at hmem
    clear h
    rcases hmem with rfl | rfl | rfl | rfl | rfl | rfl | rfl | rfl | rfl | rfl | rfl | rfl | rfl |
      rfl | rfl | rfl | rfl | rfl | rfl | rfl | rfl | rfl | rfl | rfl | rfl | rfl
    all_goals exact false_of_ne_cons ‹_›
  case h_58 =>
    split at h
    · split at h <;> cases h
    · cases h
  all_goals cases h

theorem punctuation?_eq_none_iff : punctuation? (c :: cs) = none ↔ startsMark c = false := by
  constructor
  · exact startsMark_eq_false
  · intro h
    cases hx : punctuation? (c :: cs) with
    | none => rfl
    | some z =>
        rw [startsMark_of_punctuation? hx] at h
        cases h

/-- The name at the start of the characters as a token. -/
def nameToken? (cs : List Char) : Option (Token × List Char) :=
  (Literal.name? cs).map fun z => (.name z.1 z.2.1, z.2.2)

theorem next?_other (h : c ≠ '#' ∧ c ≠ '"' ∧ c ≠ '\'' ∧ c ≠ '.') (cs : List Char) :
    next? (c :: cs) = if c.isDigit then Literal.number? (c :: cs)
      else (punctuation? (c :: cs)).or (nameToken? (c :: cs)) := by
  obtain ⟨hhash, hdouble, hsingle, hpoint⟩ := h
  rw [next?]
  · cases hx : punctuation? (c :: cs) <;> rfl
  all_goals simp_all

theorem next?_eq_nameToken? (h : c ≠ '#' ∧ c ≠ '"' ∧ c ≠ '\'') (hdigit : c.isDigit = false)
    (hmark : startsMark c = false) (cs : List Char) : next? (c :: cs) = nameToken? (c :: cs) := by
  obtain ⟨hhash, hdouble, hsingle⟩ := h
  have hpoint : c ≠ '.' := by
    rintro rfl
    exact absurd hmark (by decide)
  rw [next?_other ⟨hhash, hdouble, hsingle, hpoint⟩, hdigit, punctuation?_eq_none_iff.mpr hmark]
  exact Option.none_or

end DefineBundle.Script.Token
