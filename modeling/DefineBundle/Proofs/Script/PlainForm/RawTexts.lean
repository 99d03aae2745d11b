import DefineBundle.Proofs.Script.PlainForm.Numbers

/-!
# Templates and regular expressions in plain form

The chunks of a template and the pattern of a regular expression are kept as they are written, so in
plain form they are the plain forms of what they were, in front of the same characters. A chunk has
the same value as before, and a pattern names the same units.
-/
namespace DefineBundle.Script.PlainForm

open DefineBundle.Text DefineBundle.Text.PlainAscii DefineBundle.Script.Literal

variable {c d : Char} {cs ds acc rest : List Char}

/-- The plain form of characters of which the last comes first. -/
def back (acc : List Char) : List Char :=
  (plain acc.reverse).reverse

theorem reverse_back (acc : List Char) : (back acc).reverse = plain acc.reverse :=
  List.reverse_reverse _

theorem back_cons (c : Char) (acc : List Char) :
    back (c :: acc) = (encodeChar c).reverse ++ back acc := by
  rw [back, back, List.reverse_cons, plain_append, List.reverse_append]
  simp [plain]

theorem back_cons_plain (hc : isPlain c = true) (acc : List Char) :
    back (c :: acc) = c :: back acc := by
  rw [back_cons, encodeChar, if_pos hc]
  rfl

theorem chunkTail_char (hc : c ≠ '`' ∧ c ≠ '$' ∧ c ≠ '\\' ∧ c ≠ '\r') (acc cs : List Char) :
    chunkTail acc (c :: cs) = chunkTail (c :: acc) cs := by
  rw [chunkTail.eq_def]
  split <;> grind

theorem chunkTail_dollar (hcs : cs.head? ≠ some '\x7b') (acc : List Char) :
    chunkTail acc ('$' :: cs) = chunkTail ('$' :: acc) cs := by
  rw [chunkTail.eq_def]
  split <;> grind

/-- A line end that starts with a carriage return, and the characters after it. -/
def afterReturn (cs : List Char) : List Char :=
  if cs.head? == some '\n' then cs.tail else cs

theorem chunkTail_return (acc cs : List Char) :
    chunkTail acc ('\r' :: cs) = chunkTail ('\n' :: acc) (afterReturn cs) := by
  rw [chunkTail.eq_def, afterReturn]
  split <;> grind [List.head?_eq_some_iff]

theorem chunkTail_escapedReturn (acc cs : List Char) :
    chunkTail acc ('\\' :: '\r' :: cs) = chunkTail ('\n' :: '\\' :: acc) (afterReturn cs) := by
  rw [chunkTail.eq_def, afterReturn]
  split <;> grind [List.head?_eq_some_iff]

theorem chunkTail_escape (hc : c ≠ '\r') (acc cs : List Char) :
    chunkTail acc ('\\' :: c :: cs) = chunkTail (c :: '\\' :: acc) cs := by
  rw [chunkTail.eq_def]
  split <;> grind

theorem agrees_afterReturn (h : isSteady false cs = true) :
    afterReturn (plain cs) = plain (afterReturn cs) ∧ Behind cs (afterReturn cs) := by
  unfold afterReturn
  rw [head?_plain_beq (by decide) (by decide)]
  split
  · rename_i hhead
    obtain ⟨ds, rfl⟩ := List.head?_eq_some_iff.mp (eq_of_beq hhead)
    rw [plain_cons (by decide)]
    exact ⟨rfl, (Behind.refl (isSteady_cons_of_ne (by decide) h)).cons _⟩
  · exact ⟨rfl, .refl h⟩

theorem chunkTail_foreign (hc : isPlain c = false) (acc cs : List Char) :
    chunkTail (back acc) (plain (c :: cs)) = chunkTail (back (c :: acc)) (plain cs) := by
  rw [back_cons]
  refine collects_foreign chunkTail (fun acc cs => chunkTail_escape (by decide) acc cs)
    (fun acc d cs hd => chunkTail_char ?_ acc cs) hc _ cs
  exact ⟨ne_of_isSome_hexValue? hd rfl, ne_of_isSome_hexValue? hd rfl,
    ne_of_isSome_hexValue? hd rfl, ne_of_isSome_hexValue? hd rfl⟩

/-- What is found of a raw text: its characters, the last first, what is said about it, and the
characters after it. It can be said by the plain form of its characters. -/
structure RawAgrees {β : Type} (cs : List Char) (x y : Option (List Char × β × List Char)) :
    Prop where
  agrees : Agrees (fun z => (back z.1, z.2.1, plain z.2.2)) (·.2.2) cs x y
  steady (z : List Char × β × List Char) : x = some z → isSteady false z.1.reverse = true

theorem RawAgrees.none {β : Type} : RawAgrees (β := β) cs none none :=
  ⟨.none, fun _ h => by cases h⟩

theorem RawAgrees.some {β : Type} {b : β} (hacc : Steadies acc.reverse) (h : Behind cs rest) :
    RawAgrees cs (some (acc, b, rest)) (some (back acc, b, plain rest)) :=
  ⟨.some rfl h, fun _ he => Option.some.inj he ▸ hacc.isSteady⟩

theorem RawAgrees.suffix {β : Type} {x y : Option (List Char × β × List Char)}
    (h : RawAgrees ds x y) (hds : ds <:+ cs) : RawAgrees cs x y :=
  ⟨h.agrees.suffix hds, h.steady⟩

theorem steadies_start : Steadies ([] : List Char).reverse :=
  .nil

theorem Steadies.cons (hc : isSteadyChar c = true) (hne : c ≠ '\\') (h : Steadies acc.reverse) :
    Steadies (c :: acc).reverse := by
  rw [List.reverse_cons]
  exact h.char hc hne

theorem Steadies.cons_escape (hc : isPlain c = true) (h : Steadies acc.reverse) :
    Steadies (c :: '\\' :: acc).reverse := by
  rw [List.reverse_cons, List.reverse_cons, List.append_assoc]
  exact h.escape hc

theorem rawAgrees_chunkTail (hacc : Steadies acc.reverse) (h : isSteady false cs = true) :
    RawAgrees cs (chunkTail acc cs) (chunkTail (back acc) (plain cs)) := by
  induction cs, h using isSteady_induction generalizing acc with
  | nil => exact .none
  | backslash cs h ih =>
      cases cs with
      | nil =>
          rw [plain_eq_self (by decide)]
          exact .none
      | cons d ds =>
          obtain ⟨hd, hds⟩ := isSteady_escape h
          rw [plain_cons (by decide), plain_cons hd]
          refine RawAgrees.suffix ?_ ((List.suffix_cons d ds).trans (List.suffix_cons _ _))
          by_cases hreturn : d = '\r'
          · subst hreturn
            obtain ⟨hafter, hbehind⟩ := agrees_afterReturn hds
            have hall := ih (hbehind.cons _) (hacc.cons_escape (c := '\n') (by decide))
            rw [chunkTail_escapedReturn, chunkTail_escapedReturn, hafter]
            rw [back_cons_plain (by decide), back_cons_plain (by decide)] at hall
            exact hall.suffix hbehind.suffix
          · have hall := ih ((Behind.refl hds).cons d) (hacc.cons_escape hd)
            rw [chunkTail_escape hreturn, chunkTail_escape hreturn]
            rwa [back_cons_plain hd, back_cons_plain (by decide)] at hall
  | foreign c cs h hcs hback hc ih =>
      have hne : c ≠ '`' ∧ c ≠ '$' ∧ c ≠ '\\' ∧ c ≠ '\r' :=
        ⟨ne_of_not_isPlain hc (by decide), ne_of_not_isPlain hc (by decide), hback,
          ne_of_not_isPlain hc (by decide)⟩
      rw [chunkTail_char hne, chunkTail_foreign hc]
      exact (ih (hacc.cons (isSteadyChar_of_isSteady h) hback)).suffix (List.suffix_cons c cs)
  | char c cs h hcs hback hc ih =>
      have hnext := ih (.refl hcs) (hacc.cons (isSteadyChar_of_isSteady h) hback)
      have hsuffix := List.suffix_cons c cs
      rw [back_cons_plain hc] at hnext
      rw [plain_cons hc]
      by_cases hquote : c = '`'
      · subst hquote
        exact .some hacc ((Behind.refl hcs).cons _)
      by_cases hreturn : c = '\r'
      · subst hreturn
        obtain ⟨hafter, hbehind⟩ := agrees_afterReturn hcs
        have hall := ih hbehind (hacc.cons (c := '\n') (by decide) (by decide))
        rw [chunkTail_return, chunkTail_return, hafter]
        rw [back_cons_plain (by decide)] at hall
        exact hall.suffix (hbehind.suffix.trans hsuffix)
      by_cases hdollar : c = '$'
      · subst hdollar
        by_cases hbrace : cs.head? = some '\x7b'
        · obtain ⟨ds, rfl⟩ := List.head?_eq_some_iff.mp hbrace
          have hds := isSteady_cons_of_ne (by decide) hcs
          rw [plain_cons (by decide)]
          exact .some hacc (((Behind.refl hds).cons _).cons _)
        · rw [chunkTail_dollar hbrace, chunkTail_dollar
            (mt (head?_plain (by decide) (by decide)).mp hbrace)]
          exact hnext.suffix hsuffix
      have hne : c ≠ '`' ∧ c ≠ '$' ∧ c ≠ '\\' ∧ c ≠ '\r' := ⟨hquote, hdollar, hback, hreturn⟩
      rw [chunkTail_char hne, chunkTail_char hne]
      exact hnext.suffix hsuffix

theorem length_takeWhile_lt_iff (d : Char) (cs : List Char) :
    (cs.takeWhile (· != d)).length < cs.length ↔ d ∈ cs := by
  induction cs with
  | nil => simp
  | cons c cs ih =>
      by_cases hc : c = d
      · subst hc
        simp
      · rw [List.takeWhile_cons_of_pos (by simpa using hc), List.mem_cons, List.length_cons,
          List.length_cons, Nat.add_lt_add_iff_right, ih, or_iff_right (Ne.symm hc)]

/-- Whether digits up to a closing brace write a code point. -/
def isBraced (cs : List Char) : Bool :=
  let ds := cs.takeWhile (· != '\x7d')
  '\x7d' ∈ cs && !ds.isEmpty && (hexNumber? ds).getD 0x110000 < 0x110000

theorem hasValue_char (hc : c ≠ '\\') (cs : List Char) : hasValue (c :: cs) = hasValue cs := by
  rw [hasValue.eq_def]
  split <;> grind

theorem hasValue_braced (cs : List Char) :
    hasValue ('\\' :: 'u' :: '\x7b' :: cs) = (isBraced cs && hasValue cs) := by
  rw [hasValue, isBraced]
  simp only [length_takeWhile_lt_iff]

theorem hasValue_unit (hbrace : cs.head? ≠ some '\x7b') : hasValue ('\\' :: 'u' :: cs) =
    ((unit? cs).map fun z => hasValue z.2).getD false := by
  rw [unit?_eq]
  split
  · rename_i a b c d ds
    rw [hasValue]
    · cases hexNumber? [a, b, c, d] <;> rfl
    · simpa using hbrace
  · rw [hasValue.eq_def]
    split <;> grind

theorem hasValue_hex (cs : List Char) : hasValue ('\\' :: 'x' :: cs) =
    ((hexDigits? 2 0 cs).map fun z => hasValue z.2).getD false := by
  match cs with
  | [] => rfl
  | [a] => cases ha : hexValue? a <;> simp [hasValue, hexDigits?, ha]
  | a :: b :: cs =>
      cases ha : hexValue? a <;> cases hb : hexValue? b <;>
        simp [hasValue, hexDigits?, hexNumber?, ha, hb]

theorem hasValue_zero (cs : List Char) :
    hasValue ('\\' :: '0' :: cs) = (!cs.head?.any Char.isDigit && hasValue cs) := by
  cases cs <;> rfl

theorem hasValue_escape (hu : c ≠ 'u') (hx : c ≠ 'x') (hzero : c ≠ '0') (cs : List Char) :
    hasValue ('\\' :: c :: cs) = (!('1' ≤ c && c ≤ '9') && hasValue cs) := by
  rw [hasValue]
  · rw [beq_false_of_ne hu, beq_false_of_ne hx, Bool.false_or, Bool.false_or]
  · exact fun _ h => absurd h hu
  · exact fun _ _ _ _ _ h => absurd h hu
  · exact fun _ _ _ h => absurd h hx
  · exact fun _ _ h => absurd h hzero

theorem mem_encodeChar (hc : isPlain c = false) (hd : d ∈ encodeChar c) :
    d = '\\' ∨ d = 'u' ∨ (hexValue? d).isSome = true := by
  rw [encodeChar, if_neg (by simp [hc]), List.mem_flatMap] at hd
  obtain ⟨n, -, hd⟩ := hd
  simp only [escapeUnit, List.mem_cons, List.not_mem_nil, or_false] at hd
  rcases hd with rfl | rfl | rfl | rfl | rfl | rfl
  · exact .inl rfl
  · exact .inr (.inl rfl)
  all_goals exact .inr (.inr (isSome_hexValue?_hexDigit _))

theorem brace_not_mem_encodeChar (hc : isPlain c = false) : '\x7d' ∉ encodeChar c := fun hd => by
  rcases mem_encodeChar hc hd with h | h | h <;> cases h

theorem takeWhile_ne_brace_plain (cs : List Char) :
    (plain cs).takeWhile (· != '\x7d') = plain (cs.takeWhile (· != '\x7d')) := by
  induction cs with
  | nil => rfl
  | cons c cs ih =>
      cases hc : isPlain c with
      | true =>
          rw [plain_cons hc, List.takeWhile_cons, List.takeWhile_cons, ih]
          split
          · rw [plain_cons hc]
          · rfl
      | false =>
          have hne : c ≠ '\x7d' := ne_of_not_isPlain hc (by decide)
          rw [List.takeWhile_cons_of_pos (by simpa using hne), plain, plain, List.flatMap_cons,
            List.flatMap_cons, List.takeWhile_append_of_pos]
          · exact congrArg (encodeChar c ++ ·) ih
          · intro d hd
            rw [bne_iff_ne]
            rintro rfl
            exact brace_not_mem_encodeChar hc hd

theorem brace_mem_plain (cs : List Char) : '\x7d' ∈ plain cs ↔ '\x7d' ∈ cs := by
  rw [plain, List.mem_flatMap]
  constructor
  · rintro ⟨c, hmem, hd⟩
    cases hc : isPlain c with
    | false => exact absurd hd (brace_not_mem_encodeChar hc)
    | true =>
        rw [encodeChar, if_pos hc, List.mem_singleton] at hd
        rwa [hd]
  · exact fun hmem => ⟨_, hmem, List.mem_singleton_self _⟩

theorem backslash_mem_plain (hmem : c ∈ cs) (hc : isPlain c = false) : '\\' ∈ plain cs := by
  refine List.mem_flatMap.mpr ⟨c, hmem, ?_⟩
  rw [encodeChar, if_neg (by simp [hc]), units]
  split <;> exact List.mem_cons_self

theorem hexNumber?_plain (ds : List Char) : hexNumber? (plain ds) = hexNumber? ds := by
  by_cases hall : ∀ d ∈ ds, isPlain d = true
  · rw [plain_eq_self hall]
  · have hnone : ∀ {es : List Char} {d : Char}, d ∈ es → hexValue? d = none →
        hexNumber? es = none := by
      intro es d hd hv
      cases hn : hexNumber? es with
      | none => rfl
      | some n =>
          have hsome := isSome_of_hexNumber? hn d hd
          rw [hv] at hsome
          cases hsome
    obtain ⟨d, hmem, hd⟩ : ∃ d ∈ ds, isPlain d = false := by simpa using hall
    rw [hnone hmem (hexValue?_eq_none hd), hnone (backslash_mem_plain hmem hd) rfl]

theorem isBraced_plain (cs : List Char) : isBraced (plain cs) = isBraced cs := by
  simp only [isBraced, brace_mem_plain, takeWhile_ne_brace_plain, isEmpty_plain, hexNumber?_plain]

theorem hasValue_foreign (hc : isPlain c = false) (cs : List Char) :
    hasValue (plain (c :: cs)) = hasValue (plain cs) := by
  have hescaped := escaped_plain_cons hc cs
  generalize plain (c :: cs) = w at hescaped
  cases hescaped with
  | unit _ hn =>
      rw [hasValue_unit (head?_ne_brace hn), hn]
      rfl
  | pair _ _ _ _ hn hm =>
      rw [hasValue_unit (head?_ne_brace hn), hn, Option.map_some, Option.getD_some,
        hasValue_unit (head?_ne_brace hm), hm]
      rfl

theorem any_isDigit_head?_plain (cs : List Char) :
    (plain cs).head?.any Char.isDigit = cs.head?.any Char.isDigit := by
  cases cs with
  | nil => rfl
  | cons c cs =>
      obtain ⟨d, ds, hplain, hd, -⟩ := exists_plain_of_kind (p := Char.isDigit)
        (fun _ hd => (isPlain_of_isDigit hd).1) rfl c cs
      rw [hplain]
      exact hd

theorem hasValue_plain (h : isSteady false cs = true) : hasValue (plain cs) = hasValue cs := by
  induction cs, h using isSteady_induction with
  | nil => rfl
  | backslash cs h ih =>
      cases cs with
      | nil => rw [plain_eq_self (by decide)]
      | cons d ds =>
          obtain ⟨hd, hds⟩ := isSteady_escape h
          have hshort : ∀ {rest : List Char}, Behind ds rest →
              hasValue (plain rest) = hasValue rest := fun hrest => ih (hrest.cons d)
          have hdigits : ∀ {x y : Option (Nat × List Char)}, PairAgrees id ds x y →
              (y.map fun z => hasValue z.2).getD false =
                (x.map fun z => hasValue z.2).getD false := by
            rintro x y ⟨rfl, hx⟩
            cases x with
            | none => rfl
            | some z => exact hshort (hx z rfl)
          rw [plain_cons (by decide), plain_cons hd]
          by_cases hu : d = 'u'
          · subst hu
            by_cases hbrace : ds.head? = some '\x7b'
            · obtain ⟨es, rfl⟩ := List.head?_eq_some_iff.mp hbrace
              have hes := isSteady_cons_of_ne (by decide) hds
              rw [plain_cons (by decide), hasValue_braced, hasValue_braced, isBraced_plain,
                hshort ((Behind.refl hes).cons _)]
            · rw [hasValue_unit hbrace, hasValue_unit
                (mt (head?_plain (by decide) (by decide)).mp hbrace)]
              exact hdigits (agrees_unit? hds)
          by_cases hx : d = 'x'
          · subst hx
            rw [hasValue_hex, hasValue_hex]
            exact hdigits (agrees_hexDigits? 2 0 hds)
          by_cases hzero : d = '0'
          · subst hzero
            rw [hasValue_zero, hasValue_zero, hshort (.refl hds), any_isDigit_head?_plain]
          · rw [hasValue_escape hu hx hzero, hasValue_escape hu hx hzero, hshort (.refl hds)]
  | foreign c cs h hcs hback hc ih => rw [hasValue_char hback, hasValue_foreign hc, ih]
  | char c cs h hcs hback hc ih =>
      rw [plain_cons hc, hasValue_char hback, hasValue_char hback, ih (.refl hcs)]

theorem chunk?_eq_map (cs : List Char) : chunk? cs = (chunkTail [] cs).map fun z =>
    (String.ofList z.1.reverse, hasValue z.1.reverse, z.2.1, z.2.2) := by
  unfold chunk?
  cases chunkTail [] cs <;> rfl

/-- A chunk is the plain form of what it was, and it is valid if it was. -/
theorem agrees_chunk? (h : isSteady false cs = true) :
    Agrees (fun z : String × Bool × Bool × List Char =>
        (respell z.1, z.2.1, z.2.2.1, plain z.2.2.2))
      (·.2.2.2) cs (chunk? cs) (chunk? (plain cs)) := by
  obtain ⟨⟨hplain, hbehind⟩, hsteady⟩ := rawAgrees_chunkTail steadies_start h
  rw [chunk?_eq_map, chunk?_eq_map, show ([] : List Char) = back [] from rfl, hplain]
  show Agrees _ _ _ (Option.map _ (chunkTail [] cs)) _
  cases hx : chunkTail [] cs with
  | none => exact .none
  | some z =>
      have hz := hsteady z hx
      refine .some ?_ (hbehind z hx)
      simp only [reverse_back, respell_ofList hz, hasValue_plain hz]

theorem patternTail_escape (hc : isLineEnd c = false) (inClass : Bool) (acc cs : List Char) :
    patternTail inClass acc ('\\' :: c :: cs) = patternTail inClass (c :: '\\' :: acc) cs := by
  rw [patternTail, hc]
  rfl

theorem patternTail_char (hc : c ≠ '\\') (inClass : Bool) (acc cs : List Char) :
    patternTail inClass acc (c :: cs) =
      if isLineEnd c then none
      else if c == '/' && !inClass then some (acc, cs)
      else patternTail (c == '[' || (inClass && c != ']')) (c :: acc) cs := by
  rw [patternTail]
  exact fun _ _ he => absurd he hc

theorem patternTail_foreign (hc : isPlain c = false) (inClass : Bool) (acc cs : List Char) :
    patternTail inClass (back acc) (plain (c :: cs)) =
      patternTail inClass (back (c :: acc)) (plain cs) := by
  rw [back_cons]
  refine collects_foreign (patternTail inClass)
    (fun acc cs => patternTail_escape (by decide) inClass acc cs) (fun acc d cs hd => ?_) hc _ cs
  have hback : d ≠ '\\' := ne_of_isSome_hexValue? hd rfl
  have hend : isLineEnd d = false := by
    simp only [isLineEnd, Bool.or_eq_false_iff, beq_eq_false_iff_ne]
    exact ⟨⟨⟨ne_of_isSome_hexValue? hd rfl, ne_of_isSome_hexValue? hd rfl⟩,
      ne_of_isSome_hexValue? hd rfl⟩, ne_of_isSome_hexValue? hd rfl⟩
  have hslash : d ≠ '/' := ne_of_isSome_hexValue? hd rfl
  have hopen : d ≠ '[' := ne_of_isSome_hexValue? hd rfl
  have hclose : d ≠ ']' := ne_of_isSome_hexValue? hd rfl
  have hclass : (d == '[' || (inClass && d != ']')) = inClass := by
    rw [beq_false_of_ne hopen, Bool.false_or, bne_iff_ne.mpr hclose, Bool.and_true]
  rw [patternTail_char hback, hend, hclass, beq_false_of_ne hslash]
  rfl

theorem rawAgrees_patternTail (inClass : Bool) (hacc : Steadies acc.reverse)
    (h : isSteady false cs = true) :
    RawAgrees cs ((patternTail inClass acc cs).map fun z => (z.1, (), z.2))
      ((patternTail inClass (back acc) (plain cs)).map fun z => (z.1, (), z.2)) := by
  induction cs, h using isSteady_induction generalizing acc inClass with
  | nil => exact .none
  | backslash cs h ih =>
      cases cs with
      | nil =>
          rw [plain_eq_self (by decide)]
          exact .none
      | cons d ds =>
          obtain ⟨hd, hds⟩ := isSteady_escape h
          have hall := ih ((Behind.refl hds).cons d) inClass (hacc.cons_escape hd)
          rw [back_cons_plain hd, back_cons_plain (by decide)] at hall
          rw [plain_cons (by decide), plain_cons hd]
          cases hend : isLineEnd d with
          | true =>
              rw [patternTail, patternTail, if_pos hend, if_pos hend]
              exact .none
          | false =>
              rw [patternTail_escape hend, patternTail_escape hend]
              exact hall.suffix ((List.suffix_cons d ds).trans (List.suffix_cons _ _))
  | foreign c cs h hcs hback hc ih =>
      have hsteady := isSteadyChar_of_isSteady h
      have hslash : c ≠ '/' := ne_of_not_isPlain hc (by decide)
      have hclass : (c == '[' || (inClass && c != ']')) = inClass := by
        rw [beq_false_of_ne (ne_of_not_isPlain hc (by decide)), Bool.false_or,
          bne_iff_ne.mpr (ne_of_not_isPlain hc (by decide)), Bool.and_true]
      rw [patternTail_char hback, isLineEnd_eq_false hc hsteady, hclass, beq_false_of_ne hslash,
        patternTail_foreign hc]
      exact (ih inClass (hacc.cons hsteady hback)).suffix (List.suffix_cons c cs)
  | char c cs h hcs hback hc ih =>
      have hnext := fun inClass =>
        ih (.refl hcs) inClass (hacc.cons (isSteadyChar_of_isSteady h) hback)
      rw [back_cons_plain hc] at hnext
      rw [plain_cons hc, patternTail_char hback, patternTail_char hback]
      split
      · exact .none
      · split
        · exact .some hacc ((Behind.refl hcs).cons c)
        · exact (hnext _).suffix (List.suffix_cons c cs)

theorem isPlain_of_isFlagChar (h : isFlagChar d = true) : isPlain d = true ∧ d ≠ '\\' := by
  refine ⟨?_, by rintro rfl; cases h⟩
  rw [isFlagChar, Bool.or_eq_true, Bool.or_eq_true, beq_iff_eq, beq_iff_eq] at h
  rcases h with (h | rfl) | rfl
  · rcases Bool.or_eq_true_iff.mp h with h | h
    · rcases Bool.or_eq_true_iff.mp h with h | h
      · exact isPlain_of_le (a := 'A') (b := 'Z') (of_decide_eq_true h) (by decide) (by decide)
      · have hle := (Bool.and_eq_true_iff.mp h).imp of_decide_eq_true of_decide_eq_true
        exact isPlain_of_le (a := 'a') (b := 'z') hle (by decide) (by decide)
    · exact (isPlain_of_isDigit h).1
  · decide
  · decide

theorem agrees_regex? (h : isSteady false cs = true) :
    Agrees (fun z : String × String × List Char => (respell z.1, z.2.1, plain z.2.2)) (·.2.2) cs
      (regex? cs) (regex? (plain cs)) := by
  obtain ⟨⟨hplain, hbehind⟩, hsteady⟩ := rawAgrees_patternTail false steadies_start h
  unfold regex?
  show Agrees _ _ _ _ (Option.bind (patternTail false (back []) (plain cs)) _)
  cases hx : patternTail false [] cs with
  | none =>
      rw [hx] at hplain
      rw [Option.map_eq_none_iff.mp hplain]
      exact .none
  | some z =>
      obtain ⟨acc, rest⟩ := z
      rw [hx] at hplain hbehind hsteady
      have hrest : Behind cs rest := hbehind _ rfl
      have hacc : isSteady false acc.reverse = true := hsteady _ rfl
      obtain ⟨⟨acc', rest'⟩, hy, he⟩ := Option.map_eq_some_iff.mp hplain
      obtain ⟨rfl, -, rfl⟩ : acc' = back acc ∧ () = () ∧ rest' = plain rest := by simpa using he
      obtain ⟨htake, hdrop, hmore⟩ := takeWhile_plain (fun _ => isPlain_of_isFlagChar) hrest.steady
      have hempty : (back acc).isEmpty = acc.isEmpty := by
        rw [back, List.isEmpty_reverse, isEmpty_plain, List.isEmpty_reverse]
      rw [hy, Option.bind_eq_bind, Option.bind_some, Option.bind_some]
      dsimp only
      rw [htake, hdrop, hempty, reverse_back]
      split
      · exact .none
      · exact .some (by rw [respell_ofList hacc]) (hrest.trans hmore)

end DefineBundle.Script.PlainForm
