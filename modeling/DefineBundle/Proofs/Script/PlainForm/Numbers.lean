import DefineBundle.Proofs.Script.PlainForm.Strings

/-!
# Numbers in plain form

The digits, letters and signs of a number literal are plain. So a literal is the same in plain form,
and it has an end there if and only if it has one in the text.
-/
namespace DefineBundle.Script.PlainForm

open DefineBundle.Text DefineBundle.Text.PlainAscii DefineBundle.Script.Literal

variable {c d : Char} {cs ds more rest : List Char} {n k : Nat}

theorem takeWhile_plain {p : Char → Bool} (hp : ∀ d, p d = true → isPlain d = true ∧ d ≠ '\\')
    (h : isSteady false cs = true) :
    (plain cs).takeWhile p = cs.takeWhile p ∧
      (plain cs).drop (cs.takeWhile p).length = plain (cs.drop (cs.takeWhile p).length) ∧
      Behind cs (cs.drop (cs.takeWhile p).length) := by
  induction cs with
  | nil => exact ⟨rfl, rfl, .refl h⟩
  | cons c cs ih =>
      obtain ⟨d, ds, hplain, hpd, hsame⟩ := exists_plain_of_kind (fun d hd => (hp d hd).1)
        (Bool.eq_false_iff.mpr fun hb => (hp _ hb).2 rfl) c cs
      cases hc : p c with
      | false =>
          rw [List.takeWhile_cons_of_neg (by simp [hc]), hplain,
            List.takeWhile_cons_of_neg (by simp [hpd, hc])]
          exact ⟨rfl, hplain.symm, .refl h⟩
      | true =>
          obtain ⟨rfl, rfl⟩ := hsame hc
          have hcs := isSteady_cons_of_ne (hp d hc).2 h
          obtain ⟨htake, hdrop, hbehind⟩ := ih hcs
          rw [List.takeWhile_cons_of_pos hc, hplain, List.takeWhile_cons_of_pos hc, htake]
          exact ⟨rfl, hdrop, hbehind.cons d⟩

theorem agrees_digits? {p : Char → Bool} (hp : ∀ d, p d = true → isPlain d = true ∧ d ≠ '\\')
    (h : isSteady false cs = true) : PairAgrees id cs (digits? p cs) (digits? p (plain cs)) := by
  obtain ⟨htake, hdrop, hbehind⟩ := takeWhile_plain (p := fun c => p c || c == '_') (fun d hd => by
    rw [Bool.or_eq_true, beq_iff_eq] at hd
    rcases hd with hd | rfl
    · exact hp d hd
    · decide) h
  unfold digits?
  dsimp only
  rw [htake, hdrop]
  split
  · exact .none
  · exact .some rfl hbehind

theorem endsNumber_plain (h : isSteady false cs = true) :
    endsNumber (plain cs) = endsNumber cs := by
  cases cs with
  | nil => rfl
  | cons c cs =>
      obtain ⟨d, ds, hplain, ⟨-, rfl, rfl⟩ | ⟨hc, rfl⟩⟩ := exists_plain_cons c cs
      · rw [hplain]
        rfl
      · rw [hplain, endsNumber, endsNumber, isStray_eq_true hc (isSteadyChar_of_isSteady h)]
        simp

theorem agrees_closed {t : Token} (ht : t.respelled = t) (h : Behind cs rest) :
    PairAgrees Token.respelled cs (closed t rest) (closed t (plain rest)) := by
  rw [closed, closed, endsNumber_plain h.steady]
  split
  · exact .some (by rw [Prod.map, ht]) h
  · exact .none

theorem isPlain_of_isDigit (h : d.isDigit = true) : isPlain d = true ∧ d ≠ '\\' := by
  refine ⟨?_, by rintro rfl; cases h⟩
  simp only [Char.isDigit, Bool.and_eq_true, decide_eq_true_eq] at h
  exact isPlain_of_le (a := '0') (b := '9') h (by decide) (by decide)

theorem agrees_exponentDigits? (h : isSteady false cs = true) :
    PairAgrees id cs (exponentDigits? cs) (exponentDigits? (plain cs)) := by
  refine (agrees_digits? (fun _ => isPlain_of_isDigit) h).bind fun z hz => ?_
  dsimp only [Prod.map, id]
  split
  · exact .none
  · exact .some rfl hz

theorem signedExponent?_of_head (hminus : cs.head? ≠ some '-') (hplus : cs.head? ≠ some '+') :
    signedExponent? cs = (exponentDigits? cs).map fun z => ((z.1 : Int), z.2) := by
  unfold signedExponent?
  split
  · exact absurd rfl hminus
  · exact absurd rfl hplus
  · rfl

theorem agrees_signedExponent? (h : isSteady false cs = true) :
    PairAgrees id cs (signedExponent? cs) (signedExponent? (plain cs)) := by
  by_cases hminus : cs.head? = some '-'
  · obtain ⟨ds, rfl⟩ := List.head?_eq_some_iff.mp hminus
    have hds := isSteady_cons_of_ne (by decide) h
    rw [plain_cons (by decide)]
    refine Agrees.suffix ?_ (List.suffix_cons '-' ds)
    refine (agrees_exponentDigits? hds).map ?_ ?_ <;> exact fun _ => rfl
  · by_cases hplus : cs.head? = some '+'
    · obtain ⟨ds, rfl⟩ := List.head?_eq_some_iff.mp hplus
      have hds := isSteady_cons_of_ne (by decide) h
      rw [plain_cons (by decide)]
      refine Agrees.suffix ?_ (List.suffix_cons '+' ds)
      refine (agrees_exponentDigits? hds).map ?_ ?_ <;> exact fun _ => rfl
    · rw [signedExponent?_of_head hminus hplus, signedExponent?_of_head
        (mt (head?_plain (by decide) (by decide)).mp hminus)
        (mt (head?_plain (by decide) (by decide)).mp hplus)]
      refine (agrees_exponentDigits? h).map ?_ ?_ <;> exact fun _ => rfl

theorem exponent?_of_head (hlower : cs.head? ≠ some 'e') (hupper : cs.head? ≠ some 'E') :
    exponent? cs = some (0, cs) := by
  unfold exponent?
  split
  · exact absurd rfl hlower
  · exact absurd rfl hupper
  · rfl

theorem agrees_exponent? (h : isSteady false cs = true) :
    PairAgrees id cs (exponent? cs) (exponent? (plain cs)) := by
  by_cases hlower : cs.head? = some 'e'
  · obtain ⟨ds, rfl⟩ := List.head?_eq_some_iff.mp hlower
    rw [plain_cons (by decide)]
    exact (agrees_signedExponent? (isSteady_cons_of_ne (by decide) h)).suffix (List.suffix_cons _ _)
  · by_cases hupper : cs.head? = some 'E'
    · obtain ⟨ds, rfl⟩ := List.head?_eq_some_iff.mp hupper
      rw [plain_cons (by decide)]
      have hsigned := agrees_signedExponent? (isSteady_cons_of_ne (by decide) h)
      exact hsigned.suffix (List.suffix_cons _ _)
    · rw [exponent?_of_head hlower hupper, exponent?_of_head
        (mt (head?_plain (by decide) (by decide)).mp hlower)
        (mt (head?_plain (by decide) (by decide)).mp hupper)]
      exact .some rfl (.refl h)

/-- Without a mark, a point or an exponent a decimal literal has ended. -/
theorem decimalTail?_closed {whole : List Char} {mayBeBig : Bool}
    (h : ∀ c, cs.head? = some c → c ≠ 'n' ∧ c ≠ '.' ∧ c ≠ 'e' ∧ c ≠ 'E') :
    decimalTail? whole mayBeBig cs = closed (.number (wholeIn 10 whole)) cs := by
  cases cs with
  | nil => rfl
  | cons c cs =>
      obtain ⟨hn, hpoint, hlower, hupper⟩ := h c rfl
      rw [decimalTail?, if_neg (by simp [hlower, hupper])]
      · exact hn
      · exact hpoint

theorem decimalTail?_exponent {whole : List Char} {mayBeBig : Bool} (hc : c = 'e' ∨ c = 'E') :
    decimalTail? whole mayBeBig (c :: cs) = (signedExponent? cs).bind fun z =>
      closed (.number (.ofDecimal (valueIn 10 whole) z.1)) z.2 := by
  rcases hc with rfl | rfl <;> rfl

theorem agrees_decimalTail? (whole : List Char) (mayBeBig : Bool) (h : isSteady false cs = true) :
    PairAgrees Token.respelled cs (decimalTail? whole mayBeBig cs)
      (decimalTail? whole mayBeBig (plain cs)) := by
  cases cs with
  | nil => exact .some rfl (.refl h)
  | cons c cs =>
      by_cases hspecial : c = 'n' ∨ c = '.' ∨ c = 'e' ∨ c = 'E'
      · have hc : isPlain c = true ∧ c ≠ '\\' := by
          rcases hspecial with rfl | rfl | rfl | rfl <;> decide
        have hcs := isSteady_cons_of_ne hc.2 h
        rw [plain_cons hc.1]
        refine Agrees.suffix ?_ (List.suffix_cons c cs)
        rcases hspecial with rfl | rfl | hexp
        · rw [decimalTail?, decimalTail?]
          split
          · exact agrees_closed rfl (.refl hcs)
          · exact .none
        · rw [decimalTail?, decimalTail?]
          refine (agrees_digits? (fun _ => isPlain_of_isDigit) hcs).bind fun z hz => ?_
          refine ((agrees_exponent? hz.steady).behind hz).bind fun w hw => ?_
          exact agrees_closed rfl hw
        · rw [decimalTail?_exponent hexp, decimalTail?_exponent hexp]
          exact (agrees_signedExponent? hcs).bind fun z hz => agrees_closed rfl hz
      · obtain ⟨d, ds, hplain, hd⟩ := exists_plain_cons c cs
        have hother : ∀ e, e = c ∨ e = '\\' → e ≠ 'n' ∧ e ≠ '.' ∧ e ≠ 'e' ∧ e ≠ 'E' := by
          rintro e (rfl | rfl)
          · simpa using hspecial
          · decide
        have hd : d = c ∨ d = '\\' := hd.imp (·.2.1) (·.2)
        have hpast : ∀ e, (c :: cs).head? = some e → e ≠ 'n' ∧ e ≠ '.' ∧ e ≠ 'e' ∧ e ≠ 'E' := by
          rintro _ ⟨⟩
          exact hother c (.inl rfl)
        have hpast' : ∀ e, (plain (c :: cs)).head? = some e →
            e ≠ 'n' ∧ e ≠ '.' ∧ e ≠ 'e' ∧ e ≠ 'E' := by
          rw [hplain]
          rintro _ ⟨⟩
          exact hother d hd
        rw [decimalTail?_closed hpast, decimalTail?_closed hpast']
        exact agrees_closed rfl (.refl h)

/-- The base that a letter says, and the digits of that base. -/
def baseOf? : Char → Option (Nat × (Char → Bool))
  | 'x' | 'X' => some (16, fun c => (hexValue? c).isSome)
  | 'o' | 'O' => some (8, isOctalDigit)
  | 'b' | 'B' => some (2, fun c => c == '0' || c == '1')
  | _ => none

theorem number?_based {base : Nat} {p : Char → Bool} (h : baseOf? d = some (base, p))
    (cs : List Char) : number? ('0' :: d :: cs) = based? ['0', d] base p cs := by
  unfold baseOf? at h
  split at h <;> cases h <;> rfl

theorem number?_zero (h : baseOf? d = none) (cs : List Char) : number? ('0' :: d :: cs) =
    if d.isDigit then
      if ((d :: cs).takeWhile Char.isDigit).all isOctalDigit then
        closed (.number (wholeIn 8 ((d :: cs).takeWhile Char.isDigit)))
          ((d :: cs).drop ((d :: cs).takeWhile Char.isDigit).length)
      else decimalTail? ('0' :: (d :: cs).takeWhile Char.isDigit) false
        ((d :: cs).drop ((d :: cs).takeWhile Char.isDigit).length)
    else decimalTail? ['0'] true (d :: cs) := by
  unfold baseOf? at h
  split at h
  case h_7 =>
    rw [number?]
    · rfl
    all_goals assumption
  all_goals cases h

theorem number?_digits (hzero : cs.head? = some '0' → cs.tail = []) (hpoint : cs.head? ≠ some '.') :
    number? cs = (digits? Char.isDigit cs).bind fun z => decimalTail? z.1 true z.2 := by
  unfold number?
  split
  all_goals try exact absurd (hzero rfl) (List.cons_ne_nil _ _)
  · exact absurd rfl hpoint
  · rfl

theorem isPlain_of_isSome_hexValue? (h : (hexValue? d).isSome = true) :
    isPlain d = true ∧ d ≠ '\\' := by
  obtain ⟨v, hv⟩ := Option.isSome_iff_exists.mp h
  exact isPlain_of_hexValue? hv

theorem isPlain_of_baseOf? {base : Nat} {p : Char → Bool} (h : baseOf? c = some (base, p)) :
    (isPlain c = true ∧ c ≠ '\\') ∧ ∀ d, p d = true → isPlain d = true ∧ d ≠ '\\' := by
  have hhex : ∀ d, (hexValue? d).isSome = true → isPlain d = true ∧ d ≠ '\\' :=
    fun _ => isPlain_of_isSome_hexValue?
  have hoctal : ∀ d, isOctalDigit d = true → isPlain d = true ∧ d ≠ '\\' := fun d hd =>
    ⟨isPlain_of_isOctalDigit hd, by rintro rfl; cases hd⟩
  have hbinary : ∀ d : Char, (d == '0' || d == '1') = true → isPlain d = true ∧ d ≠ '\\' := by
    intro d hd
    rw [Bool.or_eq_true, beq_iff_eq, beq_iff_eq] at hd
    rcases hd with rfl | rfl <;> decide
  unfold baseOf? at h
  split at h
  all_goals cases h
  all_goals refine ⟨by decide, ?_⟩
  all_goals assumption

theorem based?_eq_bind (mark : List Char) (base : Nat) (p : Char → Bool) (cs : List Char) :
    based? mark base p cs = (digits? p cs).bind fun z =>
      if z.1.isEmpty then none
      else if z.2.head? == some 'n' then closed (.bigInt (String.ofList (mark ++ z.1))) z.2.tail
      else closed (.number (wholeIn base z.1)) z.2 := by
  unfold based?
  refine congrArg (Option.bind _) (funext fun z => ?_)
  obtain ⟨ds, rest⟩ := z
  dsimp only
  split
  · rfl
  · split
    · rfl
    · rename_i hrest
      rw [if_neg]
      rw [beq_iff_eq, List.head?_eq_some_iff]
      rintro ⟨more, rfl⟩
      exact hrest more rfl

theorem agrees_based? {mark : List Char} {base : Nat} {p : Char → Bool}
    (hp : ∀ d, p d = true → isPlain d = true ∧ d ≠ '\\') (h : isSteady false cs = true) :
    PairAgrees Token.respelled cs (based? mark base p cs) (based? mark base p (plain cs)) := by
  rw [based?_eq_bind, based?_eq_bind]
  refine (agrees_digits? hp h).bind fun z hz => ?_
  obtain ⟨ds, rest⟩ := z
  have hhead := head?_plain_beq (d := 'n') (by decide) (by decide) rest
  simp only [Prod.map, id, hhead]
  split
  · exact .none
  · split
    · rename_i hbig
      obtain ⟨more, rfl⟩ := List.head?_eq_some_iff.mp (eq_of_beq hbig)
      have hmore := isSteady_cons_of_ne (by decide) hz.steady
      rw [plain_cons (by decide)]
      exact agrees_closed rfl (hz.trans ((Behind.refl hmore).cons _))
    · exact agrees_closed rfl hz

theorem agrees_number?_zero (hd : baseOf? d = none) (h : isSteady false (d :: cs) = true) :
    PairAgrees Token.respelled (d :: cs) (number? ('0' :: d :: cs))
      (number? ('0' :: plain (d :: cs))) := by
  obtain ⟨e, es, hplain, he⟩ := exists_plain_cons d cs
  obtain ⟨htake, hdrop, hbehind⟩ := takeWhile_plain (fun _ => isPlain_of_isDigit) h
  have hbase : baseOf? e = none := by
    rcases he with ⟨-, rfl, -⟩ | ⟨-, rfl⟩
    · exact hd
    · rfl
  have hdigit : e.isDigit = d.isDigit := by
    rcases he with ⟨-, rfl, -⟩ | ⟨hc, rfl⟩
    · rfl
    · cases hdigit : d.isDigit with
      | false => rfl
      | true =>
          rw [(isPlain_of_isDigit hdigit).1] at hc
          cases hc
  rw [hplain, number?_zero hd, number?_zero hbase, ← hplain, htake, hdrop, hdigit]
  split
  · split
    · exact agrees_closed rfl hbehind
    · exact (agrees_decimalTail? _ false hbehind.steady).behind hbehind
  · exact agrees_decimalTail? _ true h

theorem agrees_number? (h : isSteady false cs = true) :
    PairAgrees Token.respelled cs (number? cs) (number? (plain cs)) := by
  by_cases hpoint : cs.head? = some '.'
  · obtain ⟨ds, rfl⟩ := List.head?_eq_some_iff.mp hpoint
    have hall := agrees_decimalTail? [] false h
    rw [plain_cons (by decide)] at hall ⊢
    exact hall
  · by_cases hzero : cs.head? = some '0' ∧ cs.tail ≠ []
    · obtain ⟨hhead, htail⟩ := hzero
      obtain ⟨es, rfl⟩ := List.head?_eq_some_iff.mp hhead
      obtain ⟨d, ds, rfl⟩ := List.exists_cons_of_ne_nil htail
      have hrest := isSteady_cons_of_ne (by decide) h
      rw [plain_cons (by decide)]
      refine Agrees.suffix ?_ (List.suffix_cons '0' (d :: ds))
      cases hd : baseOf? d with
      | none => exact agrees_number?_zero hd hrest
      | some z =>
          obtain ⟨base, p⟩ := z
          obtain ⟨⟨hplain, hne⟩, hp⟩ := isPlain_of_baseOf? hd
          rw [plain_cons hplain, number?_based hd, number?_based hd]
          exact (agrees_based? hp (isSteady_cons_of_ne hne hrest)).suffix (List.suffix_cons d ds)
    · have hzero : cs.head? = some '0' → cs.tail = [] := fun hhead =>
        Decidable.not_not.mp fun htail => hzero ⟨hhead, htail⟩
      have hpoint' := mt (head?_plain (by decide) (by decide)).mp hpoint
      rw [number?_digits hzero hpoint, number?_digits ?_ hpoint']
      · exact (agrees_digits? (fun _ => isPlain_of_isDigit) h).bind fun z hz =>
          (agrees_decimalTail? _ true hz.steady).behind hz
      · intro hhead
        obtain ⟨es, rfl⟩ := List.head?_eq_some_iff.mp
          ((head?_plain (by decide) (by decide)).mp hhead)
        obtain rfl : es = [] := hzero rfl
        rfl

end DefineBundle.Script.PlainForm
