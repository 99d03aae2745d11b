import DefineBundle.Text.Search

/-!
# Plain text

Output that has to survive any encoding holds only the printable characters of ASCII and the usual
blanks. Every other character is written by its UTF-16 units, four hexadecimal digits each, in a
form that a script reads back in strings, templates, regular expressions, names and comments.
-/
namespace DefineBundle.Text.PlainAscii

/-- A space, a character that shows, a line break, a tab or a carriage return. -/
def isPlain (c : Char) : Bool :=
  (0x20 ≤ c.toNat && c.toNat ≤ 0x7E) || c == '\n' || c == '\t' || c == '\r'

def units (c : Char) : List Nat :=
  let n := c.toNat
  if n < 0x10000 then [n]
  else [0xD800 + (n - 0x10000) / 0x400, 0xDC00 + (n - 0x10000) % 0x400]

/-- A lower case hexadecimal digit. -/
def hexDigit (n : Nat) : Char :=
  Nat.digitChar (n % 16)

def escapeUnit (n : Nat) : List Char :=
  ['\\', 'u', hexDigit (n / 0x1000), hexDigit (n / 0x100), hexDigit (n / 0x10), hexDigit n]

def encodeChar (c : Char) : List Char :=
  if isPlain c then [c] else (units c).flatMap escapeUnit

def encode (s : String) : String :=
  String.ofList (s.toList.flatMap encodeChar)

/-- How many characters the plain form of a text has. -/
def extent (cs : List Char) : Nat :=
  (cs.flatMap encodeChar).length

theorem length_encodeChar_pos (c : Char) : 0 < (encodeChar c).length := by
  unfold encodeChar units
  split
  · exact Nat.one_pos
  · dsimp only
    split
    · exact Nat.succ_pos _
    · exact Nat.succ_pos _

theorem length_le_extent (cs : List Char) : cs.length ≤ extent cs := by
  induction cs with
  | nil => exact Nat.le_refl 0
  | cons c cs ih =>
      have hpos := length_encodeChar_pos c
      simp only [extent, List.flatMap_cons, List.length_append, List.length_cons] at ih ⊢
      omega

theorem isPlain_hexDigit (n : Nat) : isPlain (hexDigit n) = true := by
  have h : n % 16 < 16 := Nat.mod_lt _ (by decide)
  unfold hexDigit
  generalize n % 16 = m at h
  revert h m
  decide

theorem isPlain_of_mem_escapeUnit {n : Nat} {c : Char} (h : c ∈ escapeUnit n) :
    isPlain c = true := by
  simp only [escapeUnit, List.mem_cons, List.not_mem_nil, or_false] at h
  rcases h with rfl | rfl | rfl | rfl | rfl | rfl
  · decide
  · decide
  all_goals exact isPlain_hexDigit _

theorem isPlain_of_mem_encodeChar {c d : Char} (h : c ∈ encodeChar d) : isPlain c = true := by
  unfold encodeChar at h
  split at h
  · rename_i hd
    rwa [List.mem_singleton.mp h]
  · obtain ⟨n, -, hn⟩ := List.mem_flatMap.mp h
    exact isPlain_of_mem_escapeUnit hn

theorem isPlain_of_mem_encode {s : String} {c : Char} (h : c ∈ (encode s).toList) :
    isPlain c = true := by
  rw [encode, String.toList_ofList] at h
  obtain ⟨d, -, hc⟩ := List.mem_flatMap.mp h
  exact isPlain_of_mem_encodeChar hc

end DefineBundle.Text.PlainAscii
