import DefineBundle.Path.Glob
import DefineBundle.Path.Glob.Match

/-!
# Literal starts of patterns

A pattern is matched from the left, and until it comes to pattern syntax a search has nothing to go
back to. So every path that a pattern matches starts with the text in front of the first character
of pattern syntax.
-/
namespace DefineBundle

namespace Text

theorem utf8EncodeChar_append_inj {c d : Char} {bs bs' : List UInt8}
    (h : String.utf8EncodeChar c ++ bs = String.utf8EncodeChar d ++ bs') : c = d ∧ bs = bs' := by
  have hchar : c = d := by
    have hbytes := congrArg (fun bs => bs.toByteArray.utf8DecodeChar? 0) h
    simpa [List.toByteArray_append, ByteArray.utf8DecodeChar?_utf8EncodeChar_append] using hbytes
  subst hchar
  exact ⟨rfl, List.append_cancel_left h⟩

theorem prefix_of_encodeUtf8_prefix {cs ds : List Char} (h : encodeUtf8 cs <+: encodeUtf8 ds) :
    cs <+: ds := by
  induction cs generalizing ds with
  | nil => exact List.nil_prefix
  | cons c cs ih =>
      obtain ⟨bs, hbs⟩ := h
      rw [encodeUtf8, List.flatMap_cons, List.append_assoc] at hbs
      cases ds with
      | nil =>
          have hlength := congrArg List.length hbs
          have hcode := c.utf8Size_pos
          simp [encodeUtf8] at hlength
          omega
      | cons d ds =>
          rw [encodeUtf8, List.flatMap_cons] at hbs
          obtain ⟨rfl, hrest⟩ := utf8EncodeChar_append_inj hbs
          exact (List.prefix_cons_inj c).mpr (ih ⟨bs, hrest⟩)

end Text

namespace Path.Glob

open DefineBundle.Text

theorem eq_of_ascii_mem {c x : Char} (hx : x.toNat < 128)
    (h : ascii x ∈ String.utf8EncodeChar c) : c = x := by
  have hbyte : ∀ {n : Nat}, ascii x = UInt8.ofNat n → x.toNat = n % 256 := by
    intro n hn
    have hnat := congrArg UInt8.toNat hn
    rw [ascii, UInt8.toNat_ofNat', UInt8.toNat_ofNat'] at hnat
    omega
  have hc : c.toNat = x.toNat := by
    -- every byte of a longer code is greater than the bytes of ASCII characters
    change c.val.toNat = x.toNat
    simp only [String.utf8EncodeChar] at h
    split at h
    · have hn := hbyte (List.mem_singleton.mp h)
      omega
    · exfalso
      split at h
      · simp only [List.mem_cons, List.not_mem_nil, or_false] at h
        rcases h with h | h <;> (have hn := hbyte h; omega)
      · split at h
        · simp only [List.mem_cons, List.not_mem_nil, or_false] at h
          rcases h with h | h | h <;> (have hn := hbyte h; omega)
        · simp only [List.mem_cons, List.not_mem_nil, or_false] at h
          rcases h with h | h | h | h <;> (have hn := hbyte h; omega)
  exact Char.toNat_inj.mp hc

/-- The characters that do not stand for themselves outside braces. -/
def syntaxChars : List Char :=
  ['*', '?', '[', '\x7b', '\\']

/-- A byte that is not the byte of pattern syntax. -/
def IsPlain (b : UInt8) : Prop :=
  ∀ c ∈ syntaxChars, b ≠ ascii c

theorem isPlain_of_mem_utf8EncodeChar {c : Char} (hc : c ∉ syntaxChars) {b : UInt8}
    (hb : b ∈ String.utf8EncodeChar c) : IsPlain b := by
  rintro x hx rfl
  have hascii : ∀ x ∈ syntaxChars, x.toNat < 128 := by decide
  exact hc (eq_of_ascii_mem (hascii x hx) hb ▸ hx)

theorem isPlain_of_mem_encodeUtf8 {cs : List Char} (hcs : ∀ c ∈ cs, c ∉ syntaxChars) {b : UInt8}
    (hb : b ∈ encodeUtf8 cs) : IsPlain b := by
  obtain ⟨c, hc, hmem⟩ := List.mem_flatMap.mp hb
  exact isPlain_of_mem_utf8EncodeChar (hcs c hc) hmem

section
variable {pattern path : Array UInt8} {n i m : Nat}

/-- A search that has taken bytes as they are, with nothing to go back to. -/
def literal (i : Nat) : Search :=
  ⟨⟨i, i, 0⟩, ⟨0, 0, 0⟩, ⟨0, 0, 0⟩⟩

/-- Outside braces a plain byte has to be there in the path. -/
theorem look_literal {b : UInt8} (hb : pattern[i]? = some b) (hplain : IsPlain b) :
    look pattern path 0 [] (literal i) =
      if path[i]? = some b then .next (literal (i + 1)) else .mismatch := by
  have hsyntax : ∀ c ∈ syntaxChars, (b == ascii c) = false :=
    fun c hc => beq_eq_false_iff_ne.mpr (hplain c hc)
  have hstar := hsyntax '*' (by decide)
  have hquestion := hsyntax '?' (by decide)
  have hbracket := hsyntax '[' (by decide)
  have hbrace := hsyntax '\x7b' (by decide)
  have hbackslash := hsyntax '\\' (by decide)
  simp only [look, literal, hb, hstar, hquestion, hbracket, hbrace, Nat.lt_irrefl, decide_false,
    Bool.and_false, Bool.false_eq_true, if_false, afterByte, hbackslash]
  cases hpath : path[i]? with
  | none => simp
  | some c =>
      by_cases hc : b = c
      · simp [hc]
      · simp [hc, Ne.symm hc]

/-- A search ends well only if the plain bytes that it starts with are there in the path. -/
theorem getElem?_of_search
    (hplain : ∀ j, j < m → ∃ b, pattern[j]? = some b ∧ IsPlain b)
    (h : search pattern path n 0 [] (literal i) = true) :
    ∀ j, i ≤ j → j < m → path[j]? = pattern[j]? := by
  induction n generalizing i with
  | zero => cases h
  | succ n ih =>
      intro j hij hjm
      obtain ⟨b, hb, hbplain⟩ := hplain i (by omega)
      obtain ⟨hsize, -⟩ := Array.getElem?_eq_some_iff.mp hb
      have hgoing : ¬ (decide (pattern.size ≤ (literal i).here.pattern) &&
          decide (path.size ≤ (literal i).here.path)) = true := by
        rw [Bool.and_eq_true, decide_eq_true_eq]
        exact fun hend => Nat.not_le.mpr hsize hend.1
      rw [search, if_neg hgoing, look_literal hb hbplain] at h
      by_cases hpath : path[i]? = some b
      · rw [if_pos hpath] at h
        rcases Nat.eq_or_lt_of_le hij with rfl | hlt
        · rw [hpath, hb]
        · exact ih h j hlt hjm
      · rw [if_neg hpath] at h
        simp [literal] at h

end

/-- A path that a pattern from the root matches starts with any text without pattern syntax that
the pattern starts with. -/
theorem prefix_of_matchesPath {pattern path : String} (hpattern : isAbsolute pattern = true)
    {start : List Char} (hstart : start <+: pattern.toList)
    (hplain : ∀ c ∈ start, c ∉ syntaxChars) (h : matchesPath pattern path = true) :
    start <+: path.toList := by
  have hmarks : ((bytes pattern).takeWhile (· == ascii '!')).length = 0 := by
    obtain ⟨rest, hrest⟩ := List.head?_eq_some_iff.mp (eq_of_beq hpattern)
    rw [bytes, hrest, encodeUtf8, List.flatMap_cons]
    rfl
  have hbytes : ∃ rest, bytes pattern = encodeUtf8 start ++ rest := by
    obtain ⟨rest, hrest⟩ := hstart
    exact ⟨encodeUtf8 rest, by rw [bytes, ← hrest, encodeUtf8, List.flatMap_append]; rfl⟩
  obtain ⟨rest, hrest⟩ := hbytes
  have hfirst : ∀ j, j < (encodeUtf8 start).length →
      (bytes pattern)[j]? = (encodeUtf8 start)[j]? := by
    intro j hj
    rw [hrest, List.getElem?_append_left hj]
  have hsearch : ∃ n, search (bytes pattern).toArray (bytes path).toArray n 0 [] (literal 0) =
      true := by
    unfold matchesPath at h
    simp only [hmarks] at h
    exact ⟨_, by simpa [literal] using h⟩
  obtain ⟨n, hn⟩ := hsearch
  have hpath := getElem?_of_search (m := (encodeUtf8 start).length) (fun j hj => ?_) hn
  · refine prefix_of_encodeUtf8_prefix (List.prefix_iff_getElem?.mpr fun j hj => ?_)
    have hj' := hpath j (Nat.zero_le j) hj
    rwa [List.getElem?_toArray, List.getElem?_toArray, hfirst j hj,
      List.getElem?_eq_getElem hj] at hj'
  · refine ⟨_, ?_, isPlain_of_mem_encodeUtf8 hplain (List.getElem_mem hj)⟩
    rw [List.getElem?_toArray, hfirst j hj, List.getElem?_eq_getElem hj]

end Path.Glob

end DefineBundle
