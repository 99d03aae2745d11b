import DefineBundle.Json.Text
import DefineBundle.Text.SingleQuoted

/-!
# Text inside literals

What is written between single quotes reads back as it was, and neither that writing nor a JSON
string ever leaves the line it stands on.
-/
namespace DefineBundle

namespace Text.SingleQuoted

theorem decode_encode (cs : List Char) : decode (encode cs) = cs := by
  induction cs with
  | nil => rfl
  | cons c cs ih => rw [encode_cons, decode_encodeChar_append, ih]

/-- A character with a meaning of its own is written by a backslash and one more character. -/
theorem encodeChar_cases (c : Char) :
    (∃ d, encodeChar c = ['\\', d] ∧ d ∉ ['\n', '\t', '\r']) ∨
      encodeChar c = [c] ∧ c ∉ ['\\', '\'', '"', '\n', '\t', '\r'] := by
  unfold encodeChar
  split
  case h_8 hbackslash hquote hdouble _ hnewline htab hreturn =>
    refine .inr ⟨rfl, ?_⟩
    simpa using ⟨hbackslash, hquote, hdouble, hnewline, htab, hreturn⟩
  all_goals exact .inl ⟨_, rfl, by decide⟩

theorem notMem_encodeChar {c d : Char} (hd : d ∈ encodeChar c) : d ∉ ['\n', '\t', '\r'] := by
  rcases encodeChar_cases c with ⟨e, hc, he⟩ | ⟨hc, hplain⟩
  · rw [hc, List.mem_cons, List.mem_singleton] at hd
    obtain rfl | rfl := hd
    · decide
    · exact he
  · rw [hc, List.mem_singleton] at hd
    subst hd
    simp only [List.mem_cons, List.not_mem_nil, or_false, not_or] at hplain ⊢
    exact hplain.2.2.2

theorem notMem_encode {cs : List Char} {d : Char} (hd : d ∈ encode cs) :
    d ∉ ['\n', '\t', '\r'] := by
  obtain ⟨c, -, hc⟩ := List.mem_flatMap.mp hd
  exact notMem_encodeChar hc

theorem newline_notMem_encode (cs : List Char) : '\n' ∉ encode cs :=
  fun h => notMem_encode h (by decide)

end Text.SingleQuoted

namespace Json

/-- The text of a JSON string has no control characters. -/
theorem Text.le_toNat_of_mem_string {s : String} {c : Char} (h : c ∈ Text.string s) :
    0x20 ≤ c.toNat := by
  have hdigit : ∀ n < 16, 0x20 ≤ (Nat.digitChar n).toNat := by decide
  have hhex : ∀ (n : Nat), ∀ d ∈ hex2 n, 0x20 ≤ d.toNat := by
    simp only [hex2, List.forall_mem_cons]
    exact fun n =>
      ⟨hdigit _ (Nat.mod_lt _ (by decide)), hdigit _ (Nat.mod_lt _ (by decide)), by simp⟩
  have hescape : ∀ c, ∀ d ∈ escapeChar c, 0x20 ≤ d.toNat := by
    intro c
    unfold escapeChar
    split
    case h_8 =>
      split
      · rw [List.forall_mem_append]
        exact ⟨by simp, hhex _⟩
      · simpa using ‹¬ c.toNat < 0x20›
    all_goals simp
  simp only [string, List.mem_cons, List.mem_append, List.mem_flatMap, List.not_mem_nil,
    or_false] at h
  rcases h with rfl | ⟨d, -, hd⟩ | rfl
  · decide
  · exact hescape d c hd
  · decide

theorem le_toNat_of_mem_ofAssoc {m : Assoc String} {c : Char}
    (h : c ∈ (ofAssoc .string m).chars) : 0x20 ≤ c.toNat := by
  have hmember : ∀ (e : String × String), ∀ c ∈ memberChars (e.1, string e.2), 0x20 ≤ c.toNat := by
    intro e c hc
    simp only [memberChars, chars, List.mem_append, List.mem_cons] at hc
    rcases hc with hc | rfl | hc
    · exact Text.le_toNat_of_mem_string hc
    · decide
    · exact Text.le_toNat_of_mem_string hc
  have hmembers : ∀ (es : List (String × String)),
      ∀ c ∈ membersChars (es.map fun e => (e.1, string e.2)), 0x20 ≤ c.toNat := by
    intro es
    induction es with
    | nil => simp [membersChars]
    | cons e es ih =>
        intro c hc
        simp only [List.map_cons, membersChars, List.mem_cons, List.mem_append] at hc
        rcases hc with rfl | hc | hc
        · decide
        · exact hmember e c hc
        · exact ih c hc
  unfold ofAssoc at h
  cases he : m.entries with
  | nil =>
      rw [he] at h
      simp only [List.map_nil, chars, List.mem_cons, List.not_mem_nil, or_false] at h
      rcases h with rfl | rfl <;> decide
  | cons e es =>
      rw [he] at h
      simp only [List.map_cons, chars, List.mem_cons, List.mem_append] at h
      rcases h with rfl | h | h
      · decide
      · exact hmember e c h
      · exact hmembers es c h

end Json

end DefineBundle
