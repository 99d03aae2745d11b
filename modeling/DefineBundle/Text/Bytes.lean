/-!
# Bytes of text

The UTF-8 encoding of a text, as a list of bytes. A text has no more characters than bytes, so only
finitely many texts fit into a number of bytes.
-/
namespace DefineBundle.Text

def encodeUtf8 (cs : List Char) : List UInt8 :=
  cs.flatMap String.utf8EncodeChar

def bytes (s : String) : List UInt8 :=
  encodeUtf8 s.toList

def byteLength (s : String) : Nat :=
  (bytes s).length

theorem length_le_length_encodeUtf8 (cs : List Char) : cs.length ≤ (encodeUtf8 cs).length := by
  induction cs with
  | nil => simp
  | cons c cs ih =>
      have h := c.utf8Size_pos
      simp only [encodeUtf8, List.flatMap_cons, List.length_append, List.length_cons,
        String.length_utf8EncodeChar] at ih ⊢
      omega

/-- More than the characters there are. -/
def base : Nat := 0x110001

/-- The number whose digits are the characters of a text, the first one lowest. -/
def code : List Char → Nat
  | [] => 0
  | c :: cs => c.toNat + 1 + base * code cs

theorem toNat_succ_lt_base (c : Char) : c.toNat + 1 < base := by
  have h : c.toNat.isValidChar := c.valid
  unfold Nat.isValidChar at h
  unfold base
  omega

/-- More than the code of any text of `n` characters. -/
def codeLimit : Nat → Nat
  | 0 => 1
  | n + 1 => base * codeLimit n

theorem code_lt (cs : List Char) : code cs < codeLimit cs.length := by
  induction cs with
  | nil => exact Nat.one_pos
  | cons c cs ih =>
      have hc := toNat_succ_lt_base c
      have hm : base * (code cs + 1) ≤ base * codeLimit cs.length := Nat.mul_le_mul_left base ih
      rw [code, List.length_cons, codeLimit]
      rw [Nat.mul_add] at hm
      omega

theorem codeLimit_mono {m n : Nat} (h : m ≤ n) : codeLimit m ≤ codeLimit n := by
  induction h with
  | refl => exact Nat.le_refl _
  | step _ ih =>
      rw [codeLimit]
      exact Nat.le_trans ih (Nat.le_mul_of_pos_left _ (by decide))

theorem code_injective {as bs : List Char} (h : code as = code bs) : as = bs := by
  induction as generalizing bs with
  | nil =>
      cases bs with
      | nil => rfl
      | cons b bs => simp [code] at h; omega
  | cons a as ih =>
      cases bs with
      | nil => simp [code] at h
      | cons b bs =>
          have ha := toNat_succ_lt_base a
          have hb := toNat_succ_lt_base b
          simp only [code] at h
          have hd : a.toNat + 1 = b.toNat + 1 := by
            have hm := congrArg (· % base) h
            simpa only [Nat.add_mul_mod_self_left, Nat.mod_eq_of_lt ha,
              Nat.mod_eq_of_lt hb] using hm
          have ht : code as = code bs := by
            have hm : base * code as = base * code bs := by omega
            exact Nat.eq_of_mul_eq_mul_left (by unfold base; omega) hm
          have hc : a = b := Char.toNat_inj.mp (by omega)
          rw [hc, ih ht]

theorem length_le_of_byteLength_le {ps : List String} {n : Nat} (hn : ps.Nodup)
    (h : ∀ p ∈ ps, byteLength p ≤ n) : ps.length ≤ codeLimit n := by
  have hcodes : (ps.map fun p => code p.toList).Nodup := by
    refine List.pairwise_map.mpr (hn.imp fun hne he => hne ?_)
    exact String.toList_inj.mp (code_injective he)
  have hsub : (ps.map fun p => code p.toList) ⊆ List.range (codeLimit n) := by
    intro k hk
    obtain ⟨p, hp, rfl⟩ := List.mem_map.mp hk
    have hlen : p.toList.length ≤ n := Nat.le_trans (length_le_length_encodeUtf8 _) (h p hp)
    exact List.mem_range.mpr (Nat.lt_of_lt_of_le (code_lt p.toList) (codeLimit_mono hlen))
  have hle := hcodes.length_le_of_subset hsub
  rwa [List.length_map, List.length_range] at hle

end DefineBundle.Text
