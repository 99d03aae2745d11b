import DefineBundle.Text.Bytes

/-!
# Text of bytes

The characters of bytes in UTF-8. Bytes that are no part of a character are replaced, all those
together that could still have become one character. What is text already is read as it is.
-/
namespace DefineBundle.Text

/-- A character of which bytes are missing: its number so far, how many bytes come after the next
one, and between which bounds the next one must be. -/
structure Owed where
  value : Nat
  count : Nat
  low : Nat
  high : Nat
  deriving DecidableEq, Repr

/-- Stands for bytes that are no part of a character. -/
def replacement : Char :=
  '\ufffd'

/-- What the first byte of a character comes to. -/
def firstByte (b : Nat) : List Char × Option Owed :=
  if b < 0x80 then ([Char.ofNat b], none)
  else if b < 0xc2 then ([replacement], none)
  else if b < 0xe0 then ([], some ⟨b - 0xc0, 0, 0x80, 0xbf⟩)
  else if b < 0xf0 then
    ([], some ⟨b - 0xe0, 1, if b = 0xe0 then 0xa0 else 0x80, if b = 0xed then 0x9f else 0xbf⟩)
  else if b < 0xf5 then
    ([], some ⟨b - 0xf0, 2, if b = 0xf0 then 0x90 else 0x80, if b = 0xf4 then 0x8f else 0xbf⟩)
  else ([replacement], none)

/-- What a byte comes to where one is missing. -/
def Owed.nextByte (o : Owed) (b : Nat) : List Char × Option Owed :=
  if o.low ≤ b ∧ b ≤ o.high then
    let value := 64 * o.value + (b - 0x80)
    match o.count with
    | 0 => ([Char.ofNat value], none)
    | n + 1 => ([], some ⟨value, n, 0x80, 0xbf⟩)
  else (replacement :: (firstByte b).1, (firstByte b).2)

def decodeFrom : Option Owed → List UInt8 → List Char
  | none, [] => []
  | some _, [] => [replacement]
  | none, b :: bs => (firstByte b.toNat).1 ++ decodeFrom (firstByte b.toNat).2 bs
  | some o, b :: bs => (o.nextByte b.toNat).1 ++ decodeFrom (o.nextByte b.toNat).2 bs

def decodeUtf8 (bs : List UInt8) : List Char :=
  decodeFrom none bs

def isUtf8 (bs : List UInt8) : Bool :=
  encodeUtf8 (decodeUtf8 bs) == bs

section
variable {value n low high : Nat} {b : UInt8}

theorem decodeFrom_last (hb : low ≤ b.toNat ∧ b.toNat ≤ high) (bs : List UInt8) :
    decodeFrom (some ⟨value, 0, low, high⟩) (b :: bs) =
      Char.ofNat (64 * value + (b.toNat - 0x80)) :: decodeFrom none bs := by
  simp [decodeFrom, Owed.nextByte, hb]

theorem decodeFrom_inner (hb : low ≤ b.toNat ∧ b.toNat ≤ high) (bs : List UInt8) :
    decodeFrom (some ⟨value, n + 1, low, high⟩) (b :: bs) =
      decodeFrom (some ⟨64 * value + (b.toNat - 0x80), n, 0x80, 0xbf⟩) bs := by
  simp [decodeFrom, Owed.nextByte, hb]

end

theorem decodeFrom_two {b : UInt8} (hb : 0xc2 ≤ b.toNat ∧ b.toNat < 0xe0) (bs : List UInt8) :
    decodeFrom none (b :: bs) = decodeFrom (some ⟨b.toNat - 0xc0, 0, 0x80, 0xbf⟩) bs := by
  rw [decodeFrom, firstByte, if_neg (by omega), if_neg (by omega), if_pos hb.2]
  rfl

theorem decodeFrom_three {b : UInt8} (hb : 0xe0 ≤ b.toNat ∧ b.toNat < 0xf0) (bs : List UInt8) :
    decodeFrom none (b :: bs) = decodeFrom (some ⟨b.toNat - 0xe0, 1,
      if b.toNat = 0xe0 then 0xa0 else 0x80, if b.toNat = 0xed then 0x9f else 0xbf⟩) bs := by
  rw [decodeFrom, firstByte, if_neg (by omega), if_neg (by omega), if_neg (by omega), if_pos hb.2]
  rfl

theorem decodeFrom_four {b : UInt8} (hb : 0xf0 ≤ b.toNat ∧ b.toNat < 0xf5) (bs : List UInt8) :
    decodeFrom none (b :: bs) = decodeFrom (some ⟨b.toNat - 0xf0, 2,
      if b.toNat = 0xf0 then 0x90 else 0x80, if b.toNat = 0xf4 then 0x8f else 0xbf⟩) bs := by
  rw [decodeFrom, firstByte, if_neg (by omega), if_neg (by omega), if_neg (by omega),
    if_neg (by omega), if_pos hb.2]
  rfl

theorem decodeFrom_utf8EncodeChar (c : Char) (bs : List UInt8) :
    decodeFrom none (String.utf8EncodeChar c ++ bs) = c :: decodeFrom none bs := by
  have hvalid : c.toNat < 0xd800 ∨ 0xdfff < c.toNat ∧ c.toNat < 0x110000 := c.valid
  have hof : ∀ n, n = c.toNat → Char.ofNat n = c := fun n hn => hn ▸ Char.ofNat_toNat c
  have hval : c.val.toNat = c.toNat := rfl
  rw [String.utf8EncodeChar.eq_1, hval]
  generalize c.toNat = v at *
  have htail : ∀ n, (UInt8.ofNat (n % 64 + 128)).toNat = n % 64 + 128 := fun n =>
    UInt8.toNat_ofNat_of_lt' (by grind)
  split
  · -- one byte
    have hbyte : (UInt8.ofNat v).toNat = v := UInt8.toNat_ofNat_of_lt' (by grind)
    rw [List.singleton_append, decodeFrom, hbyte, firstByte, if_pos (by omega), hof v rfl]
    rfl
  · split
    · -- two bytes
      have hlead : (UInt8.ofNat (v / 64 % 32 + 192)).toNat = v / 64 % 32 + 192 :=
        UInt8.toNat_ofNat_of_lt' (by grind)
      rw [List.cons_append, List.singleton_append, decodeFrom_two (by omega), hlead,
        decodeFrom_last (by rw [htail]; omega), htail, hof _ (by omega)]
    · split
      · -- three bytes, of which the second keeps out longer spellings and surrogates
        have hlead : (UInt8.ofNat (v / 4096 % 16 + 224)).toNat = v / 4096 % 16 + 224 :=
          UInt8.toNat_ofNat_of_lt' (by grind)
        rw [List.cons_append, List.cons_append, List.singleton_append, decodeFrom_three (by omega),
          hlead, decodeFrom_inner (by rw [htail]; split <;> split <;> omega), htail,
          decodeFrom_last (by rw [htail]; omega), htail, hof _ (by omega)]
      · -- four bytes, of which the second keeps out longer spellings and what is beyond the last
        have hlead : (UInt8.ofNat (v / 262144 % 8 + 240)).toNat = v / 262144 % 8 + 240 :=
          UInt8.toNat_ofNat_of_lt' (by grind)
        rw [List.cons_append, List.cons_append, List.cons_append, List.singleton_append,
          decodeFrom_four (by omega), hlead,
          decodeFrom_inner (by rw [htail]; split <;> split <;> omega), htail,
          decodeFrom_inner (by rw [htail]; omega), htail, decodeFrom_last (by rw [htail]; omega),
          htail, hof _ (by omega)]

example : decodeUtf8 [0x61, 0xe2, 0x82, 0x62, 0xf0, 0x80] = "a\ufffdb\ufffd\ufffd".toList := by
  decide

/-- Text is read as it is. -/
theorem decodeUtf8_encodeUtf8 (cs : List Char) : decodeUtf8 (encodeUtf8 cs) = cs := by
  induction cs with
  | nil => rfl
  | cons c cs ih =>
      rw [encodeUtf8, List.flatMap_cons, decodeUtf8, decodeFrom_utf8EncodeChar]
      exact congrArg (c :: ·) ih

theorem isUtf8_encodeUtf8 (cs : List Char) : isUtf8 (encodeUtf8 cs) = true := by
  rw [isUtf8, decodeUtf8_encodeUtf8, beq_self_eq_true]

end DefineBundle.Text
