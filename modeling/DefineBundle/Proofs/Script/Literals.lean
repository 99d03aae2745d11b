import DefineBundle.Proofs.Json.ReadBack
import DefineBundle.Proofs.Script.Reading
import DefineBundle.Text.SingleQuoted

/-!
# What stands in a string literal

Text that holds no quote, no line end and only plain escapes can be put between quotes, and the
literal reads as that text whatever follows it. The other way round, the characters of any literal
are no fewer than the code points it stands for, and a line can only end in it behind a backslash.
-/
namespace DefineBundle.Script.Literal

/-- Escapes that are one character long and stand for one character. -/
def isSimpleEscape (c : Char) : Bool :=
  !(c == 'u' || c == 'x' || isLineEnd c || isOctalDigit c)

/-- The text that is written between two quotes, if that is told by each character or escape on its
own. -/
def content? (quote : Char) : List Char → Option (List Char)
  | [] => some []
  | '\\' :: 'u' :: a :: b :: c :: d :: cs =>
      (hexNumber? [a, b, c, d]).bind fun n =>
        if n < 0xD800 then (content? quote cs).map (Char.ofNat n :: ·) else none
  | '\\' :: c :: cs =>
      if isSimpleEscape c then (content? quote cs).map (Char.ofNat (simpleEscape c) :: ·) else none
  | c :: cs =>
      if c == quote || c == '\\' || c == '\n' || c == '\r' then none
      else (content? quote cs).map (c :: ·)

theorem charOf?_toNat (c : Char) : charOf? c.toNat = some c := by
  have hvalid := c.valid
  have hrange : (decide (c.toNat < 0xD800) || (decide (0xDFFF < c.toNat) &&
      decide (c.toNat < 0x110000))) = true := by
    simp only [UInt32.isValidChar, Nat.isValidChar] at hvalid
    simp only [Bool.or_eq_true, Bool.and_eq_true, decide_eq_true_eq]
    exact hvalid
  rw [charOf?, if_pos hrange, Char.ofNat_toNat]

theorem toNat_ofNat_of_lt {n : Nat} (h : n < 0xD800) : (Char.ofNat n).toNat = n := by
  have hvalid : n.isValidChar := .inl h
  rw [Char.ofNat, dif_pos hvalid]
  rfl

theorem toNat_ofNat_simpleEscape (c : Char) :
    (Char.ofNat (simpleEscape c)).toNat = simpleEscape c := by
  unfold simpleEscape
  split <;> first | rfl | rw [Char.ofNat_toNat]

theorem textOf_map_toNat (cs : List Char) :
    textOf (cs.map Char.toNat) = (String.ofList cs, false) := by
  have hnone : (cs.map Char.toNat).any (fun n => (charOf? n).isNone) = false := by
    simp [charOf?_toNat]
  have hall : (cs.map Char.toNat).filterMap charOf? = cs := by
    have hsome : charOf? ∘ Char.toNat = some := funext charOf?_toNat
    rw [List.filterMap_map, hsome, List.filterMap_some]
  rw [textOf, if_neg (by rw [hnone]; exact Bool.false_ne_true), hall]

/-- A number in base sixteen has no other characters than digits. -/
theorem isSome_of_hexNumber? {ds : List Char} {n : Nat} (h : hexNumber? ds = some n) :
    ∀ d ∈ ds, (hexValue? d).isSome = true := by
  unfold hexNumber? at h
  generalize 0 = start at h
  induction ds generalizing start with
  | nil => simp
  | cons d ds ih =>
      rw [List.foldlM_cons] at h
      obtain ⟨next, hnext, h⟩ := Option.bind_eq_some_iff.mp h
      obtain ⟨v, hv, -⟩ := Option.map_eq_some_iff.mp hnext
      rw [List.forall_mem_cons]
      exact ⟨by rw [hv, Option.isSome_some], ih next h⟩

theorem ne_of_isSome_hexValue? {c d : Char} (hc : (hexValue? c).isSome = true)
    (hd : hexValue? d = none) : c ≠ d := by
  rintro rfl
  rw [hd] at hc
  cases hc

section Tail

variable {quote c : Char} (acc : List Nat) (cs : List Char)

theorem stringTail_quote (hquote : quote ≠ '\\') :
    stringTail quote none acc (quote :: cs) = some (acc, cs) := by
  rw [stringTail.eq_def]
  split <;> simp_all

theorem stringTail_plain (hc : (c == quote || c == '\\' || c == '\n' || c == '\r') = false) :
    stringTail quote none acc (c :: cs) = stringTail quote none (c.toNat :: acc) cs := by
  rw [stringTail.eq_def]
  split <;> simp_all

theorem stringTail_simpleEscape (hc : isSimpleEscape c = true) (hcs : cs ≠ []) :
    stringTail quote none acc ('\\' :: c :: cs) =
      stringTail quote none (simpleEscape c :: acc) cs := by
  simp only [isSimpleEscape, Bool.not_eq_true', Bool.or_eq_false_iff, beq_eq_false_iff_ne] at hc
  obtain ⟨⟨⟨hu, hx⟩, hline⟩, hoctal⟩ := hc
  have hreturn : c ≠ '\r' := by
    rintro rfl
    cases hline
  obtain ⟨b, cs, rfl⟩ := List.exists_cons_of_ne_nil hcs
  rw [stringTail.eq_def]
  split <;> grind

theorem stringTail_unicode {a b d e : Char} {n : Nat} (hn : hexNumber? [a, b, d, e] = some n)
    (hsmall : n < 0xD800) :
    stringTail quote none acc ('\\' :: 'u' :: a :: b :: d :: e :: cs) =
      stringTail quote none (n :: acc) cs := by
  have hhigh : isHigh n = false := by
    simp only [isHigh, Bool.and_eq_false_iff, decide_eq_false_iff_not]
    omega
  have hbrace : a ≠ '{' := by
    rintro rfl
    cases hn
  rw [stringTail.eq_def]
  split <;> grind

end Tail

section Content

variable {quote : Char} {w v : List Char}

theorem stringTail_content (hquote : quote = '\'' ∨ quote = '"') (h : content? quote w = some v)
    (acc : List Nat) (rest : List Char) : stringTail quote none acc (w ++ quote :: rest) =
      some ((v.map Char.toNat).reverse ++ acc, rest) := by
  fun_induction content? quote w generalizing v acc with
  | case1 =>
      cases h
      exact stringTail_quote acc rest (by rcases hquote with rfl | rfl <;> decide)
  | case2 a b c d cs ih =>
      obtain ⟨n, hn, h⟩ := Option.bind_eq_some_iff.mp h
      split at h
      · rename_i hsmall
        obtain ⟨v, hv, rfl⟩ := Option.map_eq_some_iff.mp h
        simp only [List.cons_append]
        rw [stringTail_unicode _ _ hn hsmall, ih hv]
        simp [toNat_ofNat_of_lt hsmall]
      · cases h
  | case3 c cs _ hc ih =>
      obtain ⟨v, hv, rfl⟩ := Option.map_eq_some_iff.mp h
      simp only [List.cons_append]
      rw [stringTail_simpleEscape _ _ hc (by simp), ih hv]
      simp [toNat_ofNat_simpleEscape]
  | case4 => cases h
  | case5 => cases h
  | case6 c cs _ _ hc ih =>
      obtain ⟨v, hv, rfl⟩ := Option.map_eq_some_iff.mp h
      rw [List.cons_append, stringTail_plain _ _ (by simpa using hc), ih hv]
      simp

theorem written_cons {c : Char} (hquote : c ≠ quote) (hc : c ≠ '\\') (cs : List Char) :
    written quote (c :: cs) = c :: written quote cs := by
  rw [written]
  · simp [hquote]
  · exact fun d ds he => absurd he hc

/-- Characters that are neither quotes nor backslashes are written as they are. -/
theorem written_append (hw : ∀ c ∈ w, c ≠ quote ∧ c ≠ '\\') (cs : List Char) :
    written quote (w ++ cs) = w ++ written quote cs := by
  induction w with
  | nil => rfl
  | cons c w ih =>
      rw [List.forall_mem_cons] at hw
      rw [List.cons_append, written_cons hw.1.1 hw.1.2, ih hw.2, List.cons_append]

theorem written_content (hquote : quote = '\'' ∨ quote = '"') (h : content? quote w = some v)
    (rest : List Char) : written quote (w ++ quote :: rest) = w := by
  fun_induction content? quote w generalizing v with
  | case1 => rcases hquote with rfl | rfl <;> rfl
  | case2 a b c d cs ih =>
      obtain ⟨n, hn, h⟩ := Option.bind_eq_some_iff.mp h
      split at h
      · obtain ⟨v, hv, rfl⟩ := Option.map_eq_some_iff.mp h
        have hdigits : ∀ e ∈ [a, b, c, d], e ≠ quote ∧ e ≠ '\\' := by
          intro e he
          have hsome := isSome_of_hexNumber? hn e he
          refine ⟨?_, ne_of_isSome_hexValue? hsome (by decide)⟩
          rcases hquote with rfl | rfl <;> exact ne_of_isSome_hexValue? hsome (by decide)
        have hrest := written_append hdigits (cs ++ quote :: rest)
        rw [ih hv] at hrest
        exact congrArg ('\\' :: 'u' :: ·) hrest
      · cases h
  | case3 c cs _ _ ih =>
      obtain ⟨v, hv, rfl⟩ := Option.map_eq_some_iff.mp h
      exact congrArg ('\\' :: c :: ·) (ih hv)
  | case4 => cases h
  | case5 => cases h
  | case6 c cs _ _ hc ih =>
      obtain ⟨v, hv, rfl⟩ := Option.map_eq_some_iff.mp h
      simp only [Bool.or_eq_true, beq_iff_eq, not_or] at hc
      rw [List.cons_append, written_cons hc.1.1.1 hc.1.1.2, ih hv]

theorem string?_content (hquote : quote = '\'' ∨ quote = '"') (h : content? quote w = some v)
    (rest : List Char) : string? (quote :: (w ++ quote :: rest)) =
      some (.string (String.ofList v) false (String.ofList w), rest) := by
  rw [string?, stringTail_content hquote h, written_content hquote h]
  simp [textOf_map_toNat]

theorem content?_cons {c : Char} (hc : (c == quote || c == '\\' || c == '\n' || c == '\r') = false)
    (w : List Char) : content? quote (c :: w) = (content? quote w).map (c :: ·) := by
  have hne : c ≠ '\\' := by
    rintro rfl
    simp at hc
  rw [content?, hc, if_neg Bool.false_ne_true]
  · exact fun a b d e cs he => absurd he hne
  · exact fun d cs he => absurd he hne

/-- Text without quotes, backslashes and line ends is its own content. -/
theorem content?_of_all_plain
    (h : ∀ c ∈ w, (c == quote || c == '\\' || c == '\n' || c == '\r') = false) :
    content? quote w = some w := by
  induction w with
  | nil => rfl
  | cons c w ih =>
      rw [List.forall_mem_cons] at h
      rw [content?_cons h.1, ih h.2, Option.map_some]

theorem content?_flatMap {write : Char → List Char}
    (h : ∀ c w, content? quote (write c ++ w) = (content? quote w).map (c :: ·)) (cs : List Char) :
    content? quote (cs.flatMap write) = some cs := by
  induction cs with
  | nil => rfl
  | cons c cs ih => rw [List.flatMap_cons, h, ih, Option.map_some]

theorem content?_encode (cs : List Char) :
    content? '\'' (Text.SingleQuoted.encode cs) = some cs := by
  refine content?_flatMap (fun c w => ?_) cs
  unfold Text.SingleQuoted.encodeChar
  split
  case h_8 =>
    refine content?_cons ?_ w
    simp_all
  all_goals rfl

theorem content?_flatMap_escapeChar (cs : List Char) :
    content? '"' (cs.flatMap Json.Text.escapeChar) = some cs := by
  refine content?_flatMap (fun c w => ?_) cs
  unfold Json.Text.escapeChar
  split
  case h_8 =>
    split
    · rename_i hsmall
      have hn := Json.hexNumber?_hex2 c.toNat hsmall
      rw [Json.Text.hex2] at hn
      simp only [Json.Text.hex2, List.cons_append, List.nil_append, content?, hn]
      rw [Option.bind_some, if_pos (by omega), Char.ofNat_toNat]
    · refine content?_cons ?_ w
      simp_all
  all_goals rfl

end Content

/-- Characters inside a literal that stand for at most so many code points. -/
inductive Inside (quote : Char) : List Char → Nat → Prop
  | nil : Inside quote [] 0
  | plain {c : Char} {w : List Char} {n : Nat}
      (hc : (c == quote || c == '\\' || c == '\n' || c == '\r') = false) (hw : Inside quote w n) :
      Inside quote (c :: w) (n + 1)
  | escape {c : Char} {more w : List Char} {n : Nat}
      (hmore : '\n' ∈ more → c :: more = ['\r', '\n']) (hw : Inside quote w n) :
      Inside quote ('\\' :: c :: (more ++ w)) (n + 1)

/-- The characters begin with what stands inside a literal, and its quote ends it. -/
def Closes (quote : Char) (acc : List Nat) (cs : List Char) (points : List Nat)
    (rest : List Char) : Prop :=
  ∃ w n, cs = w ++ quote :: rest ∧ Inside quote w n ∧ points.length ≤ acc.length + n

section Closes

variable {quote c : Char} {acc acc' points : List Nat} {cs more rest : List Char}

theorem Closes.plain (hc : (c == quote || c == '\\' || c == '\n' || c == '\r') = false) {n : Nat}
    (h : Closes quote (n :: acc) cs points rest) : Closes quote acc (c :: cs) points rest := by
  obtain ⟨w, k, rfl, hw, hlength⟩ := h
  rw [List.length_cons] at hlength
  exact ⟨c :: w, k + 1, rfl, hw.plain hc, by omega⟩

theorem Closes.escape (more : List Char) (hmore : '\n' ∈ more → c :: more = ['\r', '\n'])
    (hacc : acc'.length ≤ acc.length + 1) (h : Closes quote acc' cs points rest) :
    Closes quote acc ('\\' :: c :: (more ++ cs)) points rest := by
  obtain ⟨w, k, rfl, hw, hlength⟩ := h
  exact ⟨'\\' :: c :: (more ++ w), k + 1, by simp, hw.escape hmore, by omega⟩

theorem newline_notMem_of_hexNumber? {ds : List Char} {n : Nat} (h : hexNumber? ds = some n) :
    '\n' ∉ ds :=
  fun hmem => ne_of_isSome_hexValue? (isSome_of_hexNumber? h _ hmem) (by decide) rfl

/-- What the characters begin with, given what was read of a number in braces in front of them. -/
def Ends (quote : Char) : Option (Option Nat) → List Nat → List Char → List Nat → List Char → Prop
  | none, acc, cs, points, rest => Closes quote acc cs points rest
  | some _, acc, cs, points, rest => ∃ more cs' acc', cs = more ++ cs' ∧ '\n' ∉ more ∧
      acc'.length ≤ acc.length + 1 ∧ Closes quote acc' cs' points rest

theorem ends_of_stringTail {code : Option (Option Nat)}
    (h : stringTail quote code acc cs = some (points, rest)) :
    Ends quote code acc cs points rest := by
  have hne : ∀ {d : Char}, isOctalDigit d = true → '\n' ≠ d := by
    rintro d hd rfl
    cases hd
  fun_induction stringTail quote code acc cs with
  | case1 code acc cs ih =>
      obtain ⟨n, -, h⟩ := Option.bind_eq_some_iff.mp h
      exact ⟨['\x7d'], cs, n :: acc, rfl, by decide, Nat.le_refl _, ih n h⟩
  | case2 code acc d cs _ v hv _ _ ih =>
      obtain ⟨more, cs, acc', rfl, hmore, hacc, hcloses⟩ := ih h
      have hd : '\n' ≠ d := by
        rintro rfl
        cases hv
      exact ⟨d :: more, cs, acc', rfl, by simp [hd, hmore], hacc, hcloses⟩
  | case6 acc cs ih =>
      obtain ⟨more, cs, acc', rfl, hmore, hacc, hcloses⟩ := ih h
      exact hcloses.escape ('\x7b' :: more) (by simp [hmore]) hacc
  | case7 acc a b c d e f g i cs _ _ hn _ hm _ ih =>
      have hn := newline_notMem_of_hexNumber? hn
      have hm := newline_notMem_of_hexNumber? hm
      exact (ih h).escape [a, b, c, d, '\\', 'u', e, f, g, i] (by simp_all) (Nat.le_refl _)
  | case8 acc a b c d e f g i cs _ _ hn _ _ _ ih =>
      have hn := newline_notMem_of_hexNumber? hn
      exact (ih h).escape [a, b, c, d] (by simp_all) (Nat.le_refl _)
  | case9 acc a b c d e f g i cs _ _ hn _ ih =>
      have hn := newline_notMem_of_hexNumber? hn
      exact (ih h).escape [a, b, c, d] (by simp_all) (Nat.le_refl _)
  | case11 acc a b c d cs _ _ _ hn ih =>
      have hn := newline_notMem_of_hexNumber? hn
      exact (ih h).escape [a, b, c, d] (by simp_all) (Nat.le_refl _)
  | case13 acc a b cs _ hn ih =>
      have hn := newline_notMem_of_hexNumber? hn
      exact (ih h).escape [a, b] (by simp_all) (Nat.le_refl _)
  | case15 acc cs ih => exact (ih h).escape ['\n'] (fun _ => rfl) (Nat.le_succ _)
  | case18 acc a b c cs _ _ _ _ _ _ _ _ hb hc ih =>
      rw [Bool.and_eq_true] at hc
      exact (ih h).escape [b, c] (by simp [hne hb, hne hc.2]) (Nat.le_refl _)
  | case19 acc a b c cs _ _ _ _ _ _ _ _ hb _ ih | case24 acc a b cs _ _ _ _ _ _ _ _ _ hb ih =>
      exact (ih h).escape [b] (by simp [hne hb]) (Nat.le_refl _)
  | case17 _ _ _ _ _ _ _ _ _ _ _ _ ih | case23 _ _ _ _ _ _ _ _ _ _ _ _ ih =>
      exact (ih h).escape [] (by simp) (Nat.le_succ _)
  | case20 _ _ _ _ _ _ _ _ _ _ _ _ _ _ ih | case21 _ _ _ _ _ _ _ _ _ _ _ _ _ ih
  | case25 _ _ _ _ _ _ _ _ _ _ _ _ _ _ ih | case26 _ _ _ _ _ _ _ _ _ _ _ _ _ ih =>
      exact (ih h).escape [] (by simp) (Nat.le_refl _)
  | case27 acc c cs _ _ _ _ _ _ _ hc =>
      cases h
      rw [beq_iff_eq.mp hc]
      exact ⟨[], 0, rfl, .nil, Nat.le_refl _⟩
  | case29 acc c cs _ _ _ _ _ _ _ hquote hc ih =>
      rw [Bool.not_eq_true] at hquote hc
      exact (ih h).plain (by simpa [hquote] using hc)
  | _ => cases h

end Closes

section Inside

variable {quote : Char} {w : List Char} {n : Nat}

theorem Inside.le_length (h : Inside quote w n) : n ≤ w.length := by
  induction h with
  | nil => exact Nat.le_refl _
  | plain _ _ ih => exact Nat.succ_le_succ ih
  | escape _ _ ih =>
      simp only [List.length_cons, List.length_append]
      omega

/-- Where every character stands for a code point, there is no escape. -/
theorem Inside.all_plain (h : Inside quote w n) (hn : w.length ≤ n) :
    ∀ c ∈ w, (c == quote || c == '\\' || c == '\n' || c == '\r') = false := by
  induction h with
  | nil => simp
  | plain hc _ ih =>
      rw [List.forall_mem_cons]
      exact ⟨hc, ih (Nat.le_of_succ_le_succ hn)⟩
  | escape _ hw _ =>
      have := hw.le_length
      simp only [List.length_cons, List.length_append] at hn
      omega

/-- A line ends only behind a backslash, or behind a return that stands behind one. -/
theorem Inside.getLast?_of_newline (h : Inside quote w n) {front back : List Char}
    (hw : w = front ++ '\n' :: back) :
    ∃ c, front.getLast? = some c ∧ (c = '\\' ∨ c = '\r') := by
  have hbehind : ∀ before {front : List Char},
      (∃ c, front.getLast? = some c ∧ (c = '\\' ∨ c = '\r')) →
      ∃ c, (before ++ front).getLast? = some c ∧ (c = '\\' ∨ c = '\r') := by
    rintro before front ⟨c, hlast, hc⟩
    exact ⟨c, by rw [List.getLast?_append, hlast, Option.some_or], hc⟩
  induction h generalizing front with
  | nil => simp at hw
  | @plain c w _ hc _ ih =>
      cases front with
      | nil =>
          obtain ⟨rfl, -⟩ := List.cons.inj hw
          simp at hc
      | cons d front => exact hbehind [d] (ih (List.cons.inj hw).2)
  | @escape c more w _ hmore _ ih =>
      rcases front with - | ⟨d, - | ⟨e, front⟩⟩
      · cases hw
      · obtain ⟨rfl, -⟩ := List.cons.inj hw
        exact ⟨'\\', rfl, .inl rfl⟩
      · simp only [List.cons_append, List.cons.injEq] at hw
        obtain ⟨rfl, rfl, hw⟩ := hw
        rcases List.append_eq_append_iff.mp hw with ⟨between, rfl, hrest⟩ | ⟨between, rfl, hrest⟩
        · exact hbehind ('\\' :: c :: more) (ih hrest)
        · cases between with
          | nil =>
              obtain ⟨_, hlast, -⟩ := @ih [] hrest.symm
              cases hlast
          | cons b between =>
              obtain ⟨rfl, -⟩ := List.cons.inj hrest
              obtain ⟨rfl, hline⟩ := List.cons.inj (hmore (by simp))
              obtain rfl : front = [] := by
                cases front with
                | nil => rfl
                | cons d front => simp at hline
              exact ⟨'\r', rfl, .inr rfl⟩

/-- A literal ends before the first line end that no backslash stands in front of. -/
theorem Inside.within (h : Inside quote w n) {front back after : List Char}
    (hcs : front ++ '\n' :: back = w ++ quote :: after) (hne : quote ≠ '\n')
    (hlast : ∀ c, front.getLast? = some c → c ≠ '\\' ∧ c ≠ '\r') :
    ∃ more, front = w ++ quote :: more := by
  rcases List.append_eq_append_iff.mp hcs with ⟨more, rfl, hrest⟩ | ⟨more, rfl, hrest⟩
  · exfalso
    cases more with
    | nil => exact hne (List.cons.inj hrest).1.symm
    | cons d more =>
        obtain ⟨rfl, -⟩ := List.cons.inj hrest
        obtain ⟨c, hc, hbad⟩ := h.getLast?_of_newline rfl
        exact hbad.elim (hlast c hc).1 (hlast c hc).2
  · cases more with
    | nil => exact absurd (List.cons.inj hrest).1 hne
    | cons d more =>
        obtain ⟨rfl, -⟩ := List.cons.inj hrest
        exact ⟨more, rfl⟩

end Inside

section Value

variable {quote : Char} {v line rest after : List Char} {raw : String}

theorem exists_inside {cs : List Char}
    (h : string? (quote :: cs) = some (.string (String.ofList v) false raw, after)) :
    ∃ w n, cs = w ++ quote :: after ∧ Inside quote w n ∧ v.length ≤ n := by
  obtain ⟨⟨points, rest⟩, htail, h⟩ := Option.bind_eq_some_iff.mp h
  simp only [Option.some.injEq, Prod.mk.injEq, Token.string.injEq] at h
  obtain ⟨⟨hvalue, hlone, -⟩, rfl⟩ := h
  obtain ⟨w, n, hcs, hw, hn⟩ : Closes quote [] cs points rest := ends_of_stringTail htail
  refine ⟨w, n, hcs, hw, ?_⟩
  unfold textOf at hvalue hlone
  split at hlone
  · cases hlone
  · rename_i hvalid
    rw [if_neg hvalid] at hvalue
    rw [← String.ofList_injective hvalue]
    have hfilter := List.length_filterMap_le charOf? points.reverse
    simp only [List.length_reverse, List.length_nil, Nat.zero_add] at hfilter hn
    exact Nat.le_trans hfilter hn

/-- Where the text between two quotes is the value of the literal, each of its characters stands for
itself, provided that there is no other quote on the line. -/
theorem all_plain_of_string? {last : Char}
    (h : string? (quote :: (v ++ quote :: line ++ '\n' :: rest)) =
      some (.string (String.ofList v) false raw, after))
    (hquote : quote ∉ line) (hne : quote ≠ '\n') (hlast : line.getLast? = some last)
    (hline : last ≠ '\\' ∧ last ≠ '\r') :
    ∀ c ∈ v, (c == quote || c == '\\' || c == '\n' || c == '\r') = false := by
  obtain ⟨w, n, hcs, hw, hn⟩ := exists_inside h
  have hle := hw.le_length
  obtain ⟨more, hmore⟩ := hw.within hcs hne (fun c hc => by
    rw [List.getLast?_append, List.getLast?_cons, hlast] at hc
    cases hc
    exact hline)
  rcases List.append_eq_append_iff.mp hmore with ⟨between, rfl, hrest⟩ | ⟨between, rfl, -⟩
  · cases between with
    | nil => exact List.append_nil v ▸ hw.all_plain (by simpa using hn)
    | cons d between =>
        rw [List.cons_append, List.cons.injEq] at hrest
        exact absurd (by simp [hrest.2]) hquote
  · obtain rfl : between = [] := by
      rw [List.length_append] at hn
      exact List.eq_nil_of_length_eq_zero (by omega)
    rw [List.append_nil] at hn ⊢
    exact hw.all_plain hn

/-- A literal does not go on over two line ends. -/
theorem length_le_of_string? {w : List Char}
    (h : string? (quote :: (w ++ ['\n'] ++ '\n' :: rest)) =
      some (.string (String.ofList v) false raw, after)) (hne : quote ≠ '\n') :
    v.length ≤ w.length := by
  obtain ⟨w', n, hcs, hw, hn⟩ := exists_inside h
  have hle := hw.le_length
  obtain ⟨more, hmore⟩ := hw.within hcs hne (fun c hc => by
    rw [List.getLast?_concat] at hc
    cases hc
    decide)
  have hlength := congrArg List.length hmore
  simp only [List.length_append, List.length_cons, List.length_nil] at hlength
  omega

end Value

end DefineBundle.Script.Literal
