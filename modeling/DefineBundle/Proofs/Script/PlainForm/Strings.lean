import DefineBundle.Proofs.Script.PlainForm.Escapes

/-!
# Strings in plain form

Behind a backslash a string goes on with the few characters of one escape, and these are the same in
the plain form of a steady text. So a string literal has the same value there, and its raw text is
the plain form of what it was.
-/
namespace DefineBundle.Script.PlainForm

open DefineBundle.Text DefineBundle.Text.PlainAscii DefineBundle.Script.Literal

variable {c d quote : Char} {cs ds more rest : List Char} {n k : Nat}

/-- An octal number of up to three digits, of which the first is given. -/
def octalFrom (a : Char) (cs : List Char) : Nat × List Char :=
  match cs with
  | b :: ds =>
      if isOctalDigit b then
        match ds with
        | c :: es =>
            if a ≤ '3' && isOctalDigit c then (octal a * 64 + octal b * 8 + octal c, es)
            else (octal a * 8 + octal b, ds)
        | [] => (octal a * 8 + octal b, ds)
      else (octal a, cs)
  | [] => (octal a, cs)

/-- A unit, with the one that an escape behind it writes where both make a pair. -/
def paired (n : Nat) : List Char → Nat × List Char
  | '\\' :: 'u' :: ds =>
      match unit? ds with
      | some (m, es) =>
          if isHigh n && isLow m then (pairValue n m, es) else (n, '\\' :: 'u' :: ds)
      | none => (n, '\\' :: 'u' :: ds)
  | ds => (n, ds)

/-- The code points that an escape stands for, the last first, and the characters after it. -/
def escape? : List Char → Option (List Nat × List Char)
  | [] => none
  | a :: cs =>
      if a == 'u' then
        if cs.head? == some '\x7b' then (braced? none cs.tail).map fun z => ([z.1], z.2)
        else (unit? cs).map fun z => ([(paired z.1 z.2).1], (paired z.1 z.2).2)
      else if a == 'x' then (hexDigits? 2 0 cs).map fun z => ([z.1], z.2)
      else if cs.isEmpty then none
      else if a == '\r' && cs.head? == some '\n' then some ([], cs.tail)
      else if isLineEnd a then some ([], cs)
      else if isOctalDigit a then some ([(octalFrom a cs).1], (octalFrom a cs).2)
      else some ([simpleEscape a], cs)

theorem stringTail_braced (code : Option Nat) (acc : List Nat) (cs : List Char) :
    stringTail quote (some code) acc cs =
      (braced? code cs).bind fun z => stringTail quote none (z.1 :: acc) z.2 := by
  induction cs generalizing code with
  | nil => rfl
  | cons d cs ih =>
      by_cases hd : d = '\x7d'
      · subst hd
        rw [stringTail, braced?]
        cases code <;> rfl
      · rw [braced?_cons code hd, stringTail]
        · cases hexValue? d with
          | none => rfl
          | some v =>
              simp only [Option.bind_some]
              split
              · exact ih _
              · rfl
        · exact fun he => absurd he hd

theorem paired_eq_self (n : Nat) (h : ∀ ds, cs = '\\' :: 'u' :: ds → unit? ds = none) :
    paired n cs = (n, cs) := by
  unfold paired
  split
  · rw [h _ rfl]
  · rfl

theorem paired_of_not_isHigh (hn : isHigh n = false) (cs : List Char) : paired n cs = (n, cs) := by
  unfold paired
  split
  · simp only [hn, Bool.false_and, Bool.false_eq_true, if_false]
    split <;> rfl
  · rfl

theorem paired_unit (n : Nat) {m : Nat} (h : unit? ds = some (m, rest)) :
    paired n ('\\' :: 'u' :: ds) =
      if isHigh n && isLow m then (pairValue n m, rest) else (n, '\\' :: 'u' :: ds) := by
  simp only [paired, h]

theorem stringTail_unit (hquote : quote ≠ '\\') (acc : List Nat) (hbrace : cs.head? ≠ some '\x7b') :
    stringTail quote none acc ('\\' :: 'u' :: cs) = (unit? cs).bind fun z =>
      stringTail quote none ((paired z.1 z.2).1 :: acc) (paired z.1 z.2).2 := by
  rw [unit?_eq]
  split
  · rename_i a b c d ds
    have ha : a ≠ '\x7b' := by simpa using hbrace
    rw [Option.bind_map, Function.comp_def]
    by_cases hpair : ∃ e f g h es, ds = '\\' :: 'u' :: e :: f :: g :: h :: es
    · obtain ⟨e, f, g, h, es, rfl⟩ := hpair
      rw [stringTail]
      · cases hexNumber? [a, b, c, d] with
        | none => rfl
        | some n =>
            cases hm : hexNumber? [e, f, g, h] with
            | none =>
                rw [Option.bind_some, paired_eq_self n]
                rintro _ ⟨⟩
                rw [unit?_four, hm]
                rfl
            | some m =>
                rw [Option.bind_some, paired_unit n (by rw [unit?_four, hm]; rfl)]
                dsimp only
                cases isHigh n && isLow m <;> rfl
      · exact ha
    · rw [stringTail]
      · cases hexNumber? [a, b, c, d] with
        | none => rfl
        | some n =>
            rw [Option.bind_some, paired_eq_self n]
            rintro ds rfl
            rw [unit?_eq]
            split
            · exact absurd ⟨_, _, _, _, _, rfl⟩ hpair
            · rfl
      · exact ha
      · exact fun e f g h es he => hpair ⟨e, f, g, h, es, he⟩
  · rename_i hshort
    rw [stringTail.eq_def]
    split <;> grind

theorem stringTail_hex (hquote : quote ≠ '\\') (acc : List Nat) (cs : List Char) :
    stringTail quote none acc ('\\' :: 'x' :: cs) =
      (hexDigits? 2 0 cs).bind fun z => stringTail quote none (z.1 :: acc) z.2 := by
  match cs with
  | [] => simp [stringTail, hexDigits?, hquote.symm]
  | [a] =>
      cases ha : hexValue? a <;> simp [stringTail, hexDigits?, ha]
  | a :: b :: cs =>
      cases ha : hexValue? a <;> cases hb : hexValue? b <;>
        simp [stringTail, hexDigits?, hexNumber?, ha, hb]

theorem stringTail_escape (hquote : quote ≠ '\\') (acc : List Nat) (cs : List Char) :
    stringTail quote none acc ('\\' :: cs) =
      (escape? cs).bind fun z => stringTail quote none (z.1 ++ acc) z.2 := by
  cases cs with
  | nil =>
      rw [stringTail.eq_def]
      split <;> grind [escape?]
  | cons a cs =>
      rw [escape?]
      split
      · rename_i ha
        obtain rfl := eq_of_beq ha
        split
        · rename_i hbrace
          obtain ⟨cs, rfl⟩ := List.head?_eq_some_iff.mp (eq_of_beq hbrace)
          rw [stringTail, stringTail_braced, List.tail_cons, Option.bind_map]
          rfl
        · rename_i hbrace
          rw [stringTail_unit hquote acc (by simpa using hbrace), Option.bind_map]
          rfl
      · split
        · rename_i _ ha
          obtain rfl := eq_of_beq ha
          rw [stringTail_hex hquote, Option.bind_map]
          rfl
        · match cs with
          | [] => simp [stringTail, hquote.symm]
          | [b] =>
              rw [stringTail.eq_def]
              split <;> grind [octalFrom]
          | b :: c :: es =>
              rw [stringTail.eq_def]
              split <;> grind [octalFrom]

/-- What a reader always finds. -/
def AlwaysAgrees {α : Type} (cs : List Char) (x y : α × List Char) : Prop :=
  y = (x.1, plain x.2) ∧ Behind cs x.2

theorem not_isSurrogate_toNat (c : Char) : isHigh c.toNat = false ∧ isLow c.toNat = false := by
  have hvalid : c.toNat < 0xD800 ∨ 0xDFFF < c.toNat ∧ c.toNat < 0x110000 := c.valid
  simp only [isHigh, isLow, Bool.and_eq_false_iff, decide_eq_false_iff_not]
  omega

theorem isLow_of_isHigh (h : isHigh n = true) : isLow n = false := by
  simp only [isHigh, isLow, Bool.and_eq_true, Bool.and_eq_false_iff, decide_eq_true_eq,
    decide_eq_false_iff_not] at h ⊢
  omega

theorem paired_plain_foreign (n : Nat) (hc : isPlain c = false) :
    paired n (plain (c :: cs)) = (n, plain (c :: cs)) := by
  have hescaped := escaped_plain_cons hc cs
  generalize plain (c :: cs) = w at hescaped
  cases hescaped with
  | unit _ hn =>
      rw [paired_unit n hn, (not_isSurrogate_toNat c).2, Bool.and_false, if_neg (by simp)]
  | pair _ hhigh _ _ hn _ =>
      rw [paired_unit n hn, isLow_of_isHigh hhigh, Bool.and_false, if_neg (by simp)]

theorem agrees_paired (n : Nat) (h : isSteady false cs = true) :
    AlwaysAgrees cs (paired n cs) (paired n (plain cs)) := by
  cases cs with
  | nil => exact ⟨rfl, .refl h⟩
  | cons c cs =>
      cases hc : isPlain c with
      | false =>
          have hne : c ≠ '\\' := ne_of_not_isPlain hc (by decide)
          rw [paired_plain_foreign n hc,
            paired_eq_self n fun ds he => absurd (List.cons.inj he).1 hne]
          exact ⟨rfl, .refl h⟩
      | true =>
          by_cases hboth : c = '\\' ∧ cs.head? = some 'u'
          · obtain ⟨rfl, hu⟩ := hboth
            obtain ⟨ds, rfl⟩ := List.head?_eq_some_iff.mp hu
            have hds := (isSteady_escape h).2
            obtain ⟨hunit, hbehind⟩ := agrees_unit? hds
            have hself : '\\' :: 'u' :: plain ds = plain ('\\' :: 'u' :: ds) := by
              rw [plain_cons hc, plain_cons (by decide)]
            rw [← hself, AlwaysAgrees, paired, paired, hunit]
            cases hx : unit? ds with
            | none => exact ⟨by rw [← hself]; rfl, .refl h⟩
            | some z =>
                simp only [Option.map_some, Prod.map_fst, Prod.map_snd, id]
                split
                · exact ⟨rfl, ((hbehind _ hx).cons _).cons _⟩
                · exact ⟨by rw [← hself], .refl h⟩
          · have hself : ∀ ds, (c = '\\' → ds.head? ≠ some 'u') →
                paired n (c :: ds) = (n, c :: ds) :=
              fun ds hds => paired_eq_self n fun es he => by
                obtain ⟨rfl, rfl⟩ := List.cons.inj he
                exact absurd rfl (hds rfl)
            rw [hself cs fun hb hu => hboth ⟨hb, hu⟩, plain_cons hc, hself (plain cs) fun hb hu =>
              hboth ⟨hb, (head?_plain (by decide) (by decide)).mp hu⟩]
            exact ⟨by rw [plain_cons hc], .refl h⟩

theorem isEmpty_plain (cs : List Char) : (plain cs).isEmpty = cs.isEmpty := by
  cases cs with
  | nil => rfl
  | cons c cs =>
      obtain ⟨d, ds, hplain, -⟩ := exists_plain_cons c cs
      rw [hplain]
      rfl

theorem head?_plain_beq (hd : isPlain d = true) (hne : d ≠ '\\') (cs : List Char) :
    ((plain cs).head? == some d) = (cs.head? == some d) := by
  rw [Bool.eq_iff_iff, beq_iff_eq, beq_iff_eq, head?_plain hd hne]

/-- A character of the kind begins both or neither, if it is a plain one. -/
theorem exists_plain_of_kind {p : Char → Bool} (hp : ∀ d, p d = true → isPlain d = true)
    (hback : p '\\' = false) (c : Char) (cs : List Char) : ∃ d ds, plain (c :: cs) = d :: ds ∧
      p d = p c ∧ (p c = true → d = c ∧ ds = plain cs) := by
  obtain ⟨d, ds, hplain, ⟨-, rfl, rfl⟩ | ⟨hc, rfl⟩⟩ := exists_plain_cons c cs
  · exact ⟨d, plain cs, hplain, rfl, fun _ => ⟨rfl, rfl⟩⟩
  · cases hpc : p c with
    | false => exact ⟨_, ds, hplain, hback, nofun⟩
    | true =>
        rw [hp c hpc] at hc
        cases hc

theorem isPlain_of_le {a b : Char} (h : a ≤ c ∧ c ≤ b) (ha : 0x20 ≤ a.toNat) (hb : b.toNat ≤ 0x7E) :
    isPlain c = true := by
  simp only [Char.le_def, UInt32.le_iff_toNat_le] at h
  have hrange : 0x20 ≤ c.toNat ∧ c.toNat ≤ 0x7E := ⟨Nat.le_trans ha h.1, Nat.le_trans h.2 hb⟩
  simp [isPlain, hrange]

theorem isPlain_of_isOctalDigit (h : isOctalDigit d = true) : isPlain d = true := by
  simp only [isOctalDigit, Bool.and_eq_true, decide_eq_true_eq] at h
  exact isPlain_of_le h (by decide) (by decide)

theorem agrees_octalFrom (a : Char) (h : isSteady false cs = true) :
    AlwaysAgrees cs (octalFrom a cs) (octalFrom a (plain cs)) := by
  have hkind := @exists_plain_of_kind isOctalDigit (fun _ => isPlain_of_isOctalDigit) rfl
  cases cs with
  | nil => exact ⟨rfl, .refl h⟩
  | cons b ds =>
      obtain ⟨b', ds', hplain, hb', hsame⟩ := hkind b ds
      unfold octalFrom
      rw [hplain]
      dsimp only
      rw [hb']
      split
      · rename_i hb
        obtain ⟨rfl, rfl⟩ := hsame hb
        have hds := isSteady_cons_of_ne (by rintro rfl; cases hb) h
        have hbehind := (Behind.refl hds).cons b'
        cases ds with
        | nil => exact ⟨rfl, hbehind⟩
        | cons c es =>
            obtain ⟨c', es', hplain', hc', hsame'⟩ := hkind c es
            rw [hplain']
            dsimp only
            rw [hc']
            split
            · rename_i hc
              simp only [Bool.and_eq_true] at hc
              obtain ⟨rfl, rfl⟩ := hsame' hc.2
              have hes := isSteady_cons_of_ne (by rintro rfl; cases hc.2) hds
              exact ⟨rfl, ((Behind.refl hes).cons _).cons _⟩
            · exact ⟨by rw [hplain'], hbehind⟩
      · exact ⟨by rw [hplain], .refl h⟩

theorem agrees_escape? (h : isSteady false ('\\' :: cs) = true) :
    PairAgrees id cs (escape? cs) (escape? (plain cs)) := by
  cases cs with
  | nil => exact .none
  | cons a cs =>
      obtain ⟨ha, hcs⟩ := isSteady_escape h
      have hbehind := (Behind.refl hcs).cons a
      rw [plain_cons ha, escape?, escape?, head?_plain_beq (by decide) (by decide),
        head?_plain_beq (by decide) (by decide), isEmpty_plain]
      split
      · split
        · rename_i hbrace
          obtain ⟨es, rfl⟩ := List.head?_eq_some_iff.mp (eq_of_beq hbrace)
          have hes := isSteady_cons_of_ne (by decide) hcs
          rw [plain_cons (by decide)]
          refine Agrees.behind ?_ (((Behind.refl hes).cons _).cons _)
          refine (agrees_braced? none hes).map ?_ ?_ <;> exact fun _ => rfl
        · refine Agrees.behind ?_ hbehind
          rw [Option.map_eq_bind, Option.map_eq_bind]
          refine (agrees_unit? hcs).bind fun z hz => ?_
          obtain ⟨hpaired, hrest⟩ := agrees_paired z.1 hz.steady
          exact .some (by simp only [Prod.map, id, hpaired]) (hz.trans hrest)
      · split
        · refine Agrees.behind ?_ hbehind
          refine (agrees_hexDigits? 2 0 hcs).map ?_ ?_ <;> exact fun _ => rfl
        · split
          · exact .none
          · split
            · rename_i hreturn
              simp only [Bool.and_eq_true, beq_iff_eq] at hreturn
              obtain ⟨es, rfl⟩ := List.head?_eq_some_iff.mp hreturn.2
              have hes := isSteady_cons_of_ne (by decide) hcs
              rw [plain_cons (by decide)]
              exact .some rfl (((Behind.refl hes).cons _).cons _)
            · split
              · exact .some rfl hbehind
              · split
                · obtain ⟨hoctal, hrest⟩ := agrees_octalFrom a hcs
                  rw [hoctal]
                  exact .some rfl (hrest.cons a)
                · exact .some rfl hbehind

theorem stringTail_char (hc : c ≠ '\\') (acc : List Nat) (cs : List Char) :
    stringTail quote none acc (c :: cs) =
      if c == quote then some (acc, cs)
      else if c == '\n' || c == '\r' then none
      else stringTail quote none (c.toNat :: acc) cs := by
  rw [stringTail.eq_def]
  split <;> simp_all

theorem stringTail_foreign (hquote : quote ≠ '\\') (hc : isPlain c = false) (acc : List Nat)
    (cs : List Char) : stringTail quote none acc (plain (c :: cs)) =
      stringTail quote none (c.toNat :: acc) (plain cs) := by
  have hescaped := escaped_plain_cons hc cs
  generalize plain (c :: cs) = w at hescaped
  cases hescaped with
  | unit _ hn =>
      rw [stringTail_unit hquote acc (head?_ne_brace hn), hn, Option.bind_some,
        paired_of_not_isHigh (not_isSurrogate_toNat c).1]
  | pair _ hhigh hlow hpair hn hm =>
      rw [stringTail_unit hquote acc (head?_ne_brace hn), hn, Option.bind_some, paired_unit _ hm,
        hhigh, hlow, Bool.and_self, if_pos rfl, hpair]

theorem agrees_stringTail (hquote : isPlain quote = true) (hne : quote ≠ '\\') (acc : List Nat)
    (h : isSteady false cs = true) :
    PairAgrees id cs (stringTail quote none acc cs) (stringTail quote none acc (plain cs)) := by
  induction cs, h using isSteady_induction generalizing acc with
  | nil => exact .none
  | backslash cs h ih =>
      rw [plain_cons (by decide), stringTail_escape hne, stringTail_escape hne]
      refine Agrees.suffix ?_ (List.suffix_cons '\\' cs)
      exact (agrees_escape? h).bind fun z hz => (ih hz _).behind hz
  | foreign c cs h hcs hback hc ih =>
      have hq : (c == quote) = false := beq_false_of_ne (ne_of_not_isPlain hc hquote)
      have hn : (c == '\n') = false := beq_false_of_ne (ne_of_not_isPlain hc (by decide))
      have hr : (c == '\r') = false := beq_false_of_ne (ne_of_not_isPlain hc (by decide))
      rw [stringTail_foreign hne hc, stringTail_char hback, hq, hn, hr]
      exact (ih _).behind ((Behind.refl hcs).cons c)
  | char c cs h hcs hback hc ih =>
      have hbehind := (Behind.refl hcs).cons c
      rw [plain_cons hc, stringTail_char hback, stringTail_char hback]
      split
      · exact .some rfl hbehind
      · split
        · exact .none
        · exact (ih (.refl hcs) _).behind hbehind

/-- The characters go on to be steady in front of steady ones, where the first may be escaped. -/
def Steadies (cs : List Char) : Prop :=
  ∀ ds, isSteady false ds = true → isSteady false (cs ++ ds) = true

theorem Steadies.nil : Steadies [] :=
  fun _ h => h

theorem Steadies.isSteady (h : Steadies cs) : isSteady false cs = true := by
  have hall := h [] rfl
  rwa [List.append_nil] at hall

theorem Steadies.char (hc : isSteadyChar c = true) (hne : c ≠ '\\') (h : Steadies cs) :
    Steadies (cs ++ [c]) := fun ds hds => by
  rw [List.append_assoc]
  exact h _ (isSteady_cons hc hne hds)

theorem Steadies.escape (hc : isPlain c = true) (h : Steadies cs) : Steadies (cs ++ ['\\', c]) :=
  fun ds hds => by
    rw [List.append_assoc]
    exact h _ (isSteady_cons_escape hc hds)

theorem isSome_hexValue?_hexDigit (n : Nat) : (hexValue? (hexDigit n)).isSome = true := by
  rw [hexValue?_hexDigit, Option.isSome_some]

/-- A reader that collects what it reads, the last first, collects the plain form of a character if
it collects escapes and digits as they are. -/
theorem collects_foreign {β : Type} (collect : List Char → List Char → β)
    (hescape : ∀ acc cs, collect acc ('\\' :: 'u' :: cs) = collect ('u' :: '\\' :: acc) cs)
    (hdigit : ∀ acc d cs, (hexValue? d).isSome = true →
      collect acc (d :: cs) = collect (d :: acc) cs)
    (hc : isPlain c = false) (acc cs : List Char) :
    collect acc (plain (c :: cs)) = collect ((encodeChar c).reverse ++ acc) (plain cs) := by
  have hunit : ∀ n acc cs, collect acc (escapeUnit n ++ cs) =
      collect ((escapeUnit n).reverse ++ acc) cs := fun n acc cs => by
    simp only [escapeUnit, List.cons_append, List.nil_append]
    rw [hescape]
    iterate 4 rw [hdigit _ _ _ (isSome_hexValue?_hexDigit _)]
    rfl
  rw [plain, List.flatMap_cons, encodeChar, if_neg (by simp [hc])]
  generalize units c = ns
  induction ns generalizing acc with
  | nil => rfl
  | cons n ns ih =>
      rw [List.flatMap_cons, List.append_assoc, hunit, ih, List.reverse_append, List.append_assoc]

theorem written_char (hne : c ≠ '\\') (cs : List Char) :
    written quote (c :: cs) = if c == quote then [] else c :: written quote cs := by
  rw [written]
  exact fun _ _ he => absurd he hne

theorem written_foreign (hquote : hexValue? quote = none) (hc : isPlain c = false)
    (cs : List Char) :
    written quote (plain (c :: cs)) = encodeChar c ++ written quote (plain cs) := by
  have hcollect := collects_foreign (fun acc cs => acc.reverse ++ written quote cs)
    (fun acc cs => by simp [written]) (fun acc d cs hd => ?_) hc [] cs
  · simpa using hcollect
  · have hback : d ≠ '\\' := ne_of_isSome_hexValue? hd rfl
    rw [written_char hback, if_neg (by simpa using ne_of_isSome_hexValue? hd hquote)]
    simp

theorem plain_written (hquote : hexValue? quote = none) (hplain : isPlain quote = true)
    (h : isSteady false cs = true) :
    written quote (plain cs) = plain (written quote cs) ∧
      isSteady false (written quote cs) = true := by
  induction cs, h using isSteady_induction with
  | nil => exact ⟨rfl, rfl⟩
  | backslash cs h ih =>
      cases cs with
      | nil =>
          rw [plain_eq_self (by decide), written]
          · split <;> exact ⟨rfl, rfl⟩
          · exact fun _ _ _ h => by cases h
      | cons d ds =>
          obtain ⟨hd, hds⟩ := isSteady_escape h
          obtain ⟨heq, hsteady⟩ := ih ((Behind.refl hds).cons d)
          rw [plain_cons (by decide), plain_cons hd, written, written, plain_cons (by decide),
            plain_cons hd, heq]
          exact ⟨rfl, isSteady_cons_escape hd hsteady⟩
  | foreign c cs h hcs hback hc ih =>
      obtain ⟨heq, hsteady⟩ := ih
      rw [written_foreign hquote hc, written_char hback,
        if_neg (by simpa using ne_of_not_isPlain hc hplain), heq]
      exact ⟨rfl, isSteady_cons (isSteadyChar_of_isSteady h) hback hsteady⟩
  | char c cs h hcs hback hc ih =>
      obtain ⟨heq, hsteady⟩ := ih (.refl hcs)
      rw [plain_cons hc, written_char hback, written_char hback]
      split
      · exact ⟨rfl, rfl⟩
      · rw [plain_cons hc, heq]
        exact ⟨rfl, isSteady_cons (isSteadyChar_of_isSteady h) hback hsteady⟩

theorem agrees_string? (hquote : quote = '"' ∨ quote = '\'') (h : isSteady false cs = true) :
    PairAgrees Token.respelled (quote :: cs) (string? (quote :: cs))
      (string? (quote :: plain cs)) := by
  have hkind : isPlain quote = true ∧ quote ≠ '\\' ∧ hexValue? quote = none := by
    rcases hquote with rfl | rfl <;> decide
  obtain ⟨hplain, hne, hdigit⟩ := hkind
  obtain ⟨hwritten, hsteady⟩ := plain_written hdigit hplain h
  refine Agrees.suffix ?_ (List.suffix_cons quote cs)
  refine (agrees_stringTail hplain hne [] h).bind fun z hz => ?_
  refine .some ?_ hz
  rw [hwritten, ← respell_ofList hsteady]
  rfl

end DefineBundle.Script.PlainForm
