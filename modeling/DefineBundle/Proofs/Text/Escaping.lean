import DefineBundle.Proofs.Script.Literals
import DefineBundle.Proofs.Text.Quoting
import DefineBundle.Script.Token.Next
import Mathlib.Algebra.Ring.Parity
import Mathlib.Data.List.DropRight

/-!
# Text that stays between its quotes

A quote ends a literal unless a backslash takes it, and a backslash takes the character behind it
unless it is itself taken. So all depends on whether the run of backslashes in front of a character
is odd: in written text it is odd in front of every quote, and the run at the end is even, so the
closing quote is free.
-/
namespace DefineBundle.Text.SingleQuoted

/-- The number of backslashes in the run at the end of a text. -/
def backslashesAtEnd (cs : List Char) : Nat :=
  (cs.rtakeWhile (· == '\\')).length

theorem backslashesAtEnd_concat_backslash (cs : List Char) :
    backslashesAtEnd (cs ++ ['\\']) = backslashesAtEnd cs + 1 := by
  simp [backslashesAtEnd]

theorem backslashesAtEnd_concat_of_ne {c : Char} (hc : c ≠ '\\') (cs : List Char) :
    backslashesAtEnd (cs ++ [c]) = 0 := by
  simp [backslashesAtEnd, hc]

theorem even_backslashesAtEnd_append {w : List Char} (hw : Even (backslashesAtEnd w))
    (v : List Char) : Even (backslashesAtEnd (w ++ v)) ↔ Even (backslashesAtEnd v) := by
  induction v using List.reverseRecOn with
  | nil => simpa [backslashesAtEnd] using hw
  | append_singleton v c ih =>
      rw [← List.append_assoc]
      by_cases hc : c = '\\'
      · subst hc
        rw [backslashesAtEnd_concat_backslash, backslashesAtEnd_concat_backslash, Nat.even_add_one,
          Nat.even_add_one, ih]
      · rw [backslashesAtEnd_concat_of_ne hc, backslashesAtEnd_concat_of_ne hc]

theorem even_backslashesAtEnd_encodeChar (c : Char) : Even (backslashesAtEnd (encodeChar c)) := by
  rcases encodeChar_cases c with ⟨d, hc, -⟩ | ⟨hc, hplain⟩
  · rw [hc]
    by_cases hd : d = '\\'
    · subst hd
      decide
    · have hnone := backslashesAtEnd_concat_of_ne hd ['\\']
      rw [List.singleton_append] at hnone
      rw [hnone]
      exact Even.zero
  · have hnone := backslashesAtEnd_concat_of_ne (c := c) (by rintro rfl; simp at hplain) []
    rw [List.nil_append] at hnone
    rw [hc, hnone]
    exact Even.zero

/-- A quote in the written form of a character stands behind one backslash. -/
theorem eq_backslash_of_encodeChar {c q : Char} {before after : List Char}
    (h : encodeChar c = before ++ q :: after) (hq : q ∈ ['\'', '"']) : before = ['\\'] := by
  rcases encodeChar_cases c with ⟨d, hc, -⟩ | ⟨hc, hplain⟩
  · rw [hc] at h
    match before with
    | [] =>
        obtain ⟨rfl, -⟩ := List.cons.inj h
        simp at hq
    | [b] =>
        obtain ⟨rfl, -⟩ := List.cons.inj h
        rfl
    | b :: b' :: before => simp at h
  · rw [hc] at h
    cases before with
    | nil =>
        obtain ⟨rfl, -⟩ := List.cons.inj h
        simp only [List.mem_cons, List.not_mem_nil, or_false, not_or] at hplain hq
        rcases hq with rfl | rfl
        · exact absurd rfl hplain.2.1
        · exact absurd rfl hplain.2.2.1
    | cons b before => simp at h

theorem even_backslashesAtEnd_encode (cs : List Char) : Even (backslashesAtEnd (encode cs)) := by
  induction cs with
  | nil => exact Even.zero
  | cons c cs ih =>
      rw [encode_cons, even_backslashesAtEnd_append (even_backslashesAtEnd_encodeChar c)]
      exact ih

theorem odd_backslashesAtEnd_of_quote {cs before after : List Char} {q : Char}
    (h : encode cs = before ++ q :: after) (hq : q ∈ ['\'', '"']) :
    Odd (backslashesAtEnd before) := by
  induction cs generalizing before with
  | nil => simp [encode] at h
  | cons c cs ih =>
      have hbehind : ∀ before', before = encodeChar c ++ before' →
          encode cs = before' ++ q :: after → Odd (backslashesAtEnd before) := by
        rintro before' rfl hcs
        rw [← Nat.not_even_iff_odd,
          even_backslashesAtEnd_append (even_backslashesAtEnd_encodeChar c), Nat.not_even_iff_odd]
        exact ih hcs
      rw [encode_cons] at h
      rcases List.append_eq_append_iff.mp h with ⟨before', hb, hcs⟩ | ⟨more, hc, hmore⟩
      · exact hbehind before' hb hcs
      · cases more with
        | nil => exact hbehind [] (by simpa using hc.symm) hmore.symm
        | cons q' more =>
            obtain ⟨rfl, -⟩ := List.cons.inj hmore
            rw [eq_backslash_of_encodeChar hc hq]
            decide

/-- A written text has no line end and no tab, a backslash takes each quote in it and none takes
what follows it. So between single quotes it is the whole of one literal with the text as its value,
whatever follows. It reads back as the text, and no other text is written like it. -/
theorem encode_stays_between_quotes :
    Function.Injective encode ∧ ∀ cs : List Char,
      decode (encode cs) = cs ∧
      ('\n' ∉ encode cs ∧ '\t' ∉ encode cs ∧ '\r' ∉ encode cs) ∧
      (∀ before q after, encode cs = before ++ q :: after → q = '\'' ∨ q = '"' →
        Odd (backslashesAtEnd before)) ∧
      ¬ Odd (backslashesAtEnd (encode cs)) ∧
      ∀ rest, Script.Token.next? ('\'' :: (encode cs ++ '\'' :: rest)) =
        some (.string (String.ofList cs) false (String.ofList (encode cs)), rest) := by
  refine ⟨Function.LeftInverse.injective decode_encode, fun cs =>
    ⟨decode_encode cs, ⟨fun h => ?_, fun h => ?_, fun h => ?_⟩, ?_, ?_, fun rest => ?_⟩⟩
  · exact notMem_encode h (by decide)
  · exact notMem_encode h (by decide)
  · exact notMem_encode h (by decide)
  · exact fun before q after h hq => odd_backslashesAtEnd_of_quote h (by simpa using hq)
  · exact Nat.not_odd_iff_even.mpr (even_backslashesAtEnd_encode cs)
  · exact Script.Literal.string?_content (.inl rfl) (Script.Literal.content?_encode cs) rest

/-- In a text that ends in a backslash and a quote, the quote is written behind three backslashes.
-/
theorem encode_stays_between_quotes_backslash :
    encode ['a', '\\', '\''] = ['a', '\\', '\\', '\\'] ++ '\'' :: [] ∧
      Odd (backslashesAtEnd ['a', '\\', '\\', '\\']) := by
  have h : encode ['a', '\\', '\''] = ['a', '\\', '\\', '\\'] ++ '\'' :: [] := by decide
  exact ⟨h, (encode_stays_between_quotes.2 ['a', '\\', '\'']).2.2.1 _ _ _ h (.inl rfl)⟩

end DefineBundle.Text.SingleQuoted
