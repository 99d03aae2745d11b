import DefineBundle.Proofs.Script.PlainForm.Tokens

/-!
# Space and comments in plain form

In a steady text all space between tokens is plain. A comment has more characters in plain form, but
it ends at the same place and says the same.
-/
namespace DefineBundle.Script.PlainForm

open DefineBundle.Text DefineBundle.Text.PlainAscii DefineBundle.Script.Literal
open DefineBundle.Script.Trivia

variable {c d : Char} {cs ds ps rest : List Char} {e : Bool} {g : Gap}

theorem isSteadyChar_of_mem (h : isSteady e cs = true) : ∀ c ∈ cs, isSteadyChar c = true := by
  induction cs generalizing e with
  | nil => exact fun c hc => absurd hc List.not_mem_nil
  | cons c cs ih =>
      rw [isSteady, Bool.and_eq_true, Bool.or_eq_true, Bool.and_eq_true] at h
      refine List.forall_mem_cons.mpr ⟨?_, ih h.2⟩
      rcases h.1 with hc | hc
      · simp [isSteadyChar, hc]
      · exact hc.2

theorem isPrefixOf_plain (hps : ∀ p ∈ ps, isPlain p = true ∧ p ≠ '\\') (cs : List Char) :
    ps.isPrefixOf (plain cs) = ps.isPrefixOf cs := by
  induction ps generalizing cs with
  | nil => simp
  | cons p ps ih =>
      obtain ⟨⟨hp, hne⟩, hps⟩ := List.forall_mem_cons.mp hps
      cases cs with
      | nil => rfl
      | cons c cs =>
          obtain ⟨d, ds, hplain, ⟨-, rfl, rfl⟩ | ⟨hc, rfl⟩⟩ := exists_plain_cons c cs
          · rw [hplain, List.isPrefixOf_cons_cons, List.isPrefixOf_cons_cons, ih hps]
          · rw [hplain, List.isPrefixOf_cons_cons, List.isPrefixOf_cons_cons, beq_false_of_ne hne,
              beq_false_of_ne (ne_of_not_isPlain hc hp).symm]
            rfl

theorem isIndent_foreign (hc : isPlain c = false) (hs : isSteadyChar c = true) (isBlock : Bool) :
    isIndent isBlock c = false := by
  have hspace := isSpace_eq_false hc hs
  rw [Bool.eq_false_iff]
  intro hindent
  simp only [isIndent, Bool.or_eq_true, Bool.and_eq_true, beq_iff_eq] at hindent
  rcases hindent with ((rfl | rfl) | rfl) | ⟨-, rfl | rfl⟩
  · cases hc
  · cases hc
  · cases hspace
  · cases hc
  · cases hc

theorem dropWhile_isIndent_plain (isBlock : Bool) (h : ∀ c ∈ cs, isSteadyChar c = true) :
    (plain cs).dropWhile (isIndent isBlock) = plain (cs.dropWhile (isIndent isBlock)) := by
  induction cs with
  | nil => rfl
  | cons c cs ih =>
      rw [List.forall_mem_cons] at h
      cases hc : isPlain c with
      | true =>
          rw [plain_cons hc, List.dropWhile_cons, List.dropWhile_cons, ih h.2]
          split
          · rfl
          · rw [plain_cons hc]
      | false =>
          obtain ⟨d, ds, hplain, ⟨hc', -, -⟩ | ⟨-, rfl⟩⟩ := exists_plain_cons c cs
          · rw [hc] at hc'
            cases hc'
          · rw [List.dropWhile_cons_of_neg (by simp [isIndent_foreign hc h.1]), hplain]
            exact List.dropWhile_cons_of_neg (by cases isBlock <;> decide)

theorem annotated_plain (isBlock : Bool) (g : Gap) (h : ∀ c ∈ cs, isSteadyChar c = true) :
    annotated isBlock g (plain cs) = annotated isBlock g cs := by
  unfold annotated
  rw [dropWhile_isIndent_plain isBlock h]
  cases cs.dropWhile (isIndent isBlock) with
  | nil => rfl
  | cons mark ds =>
      obtain ⟨d, es, hplain, ⟨-, rfl, rfl⟩ | ⟨hc, rfl⟩⟩ := exists_plain_cons mark ds
      · rw [hplain]
        dsimp only
        rw [isPrefixOf_plain (by decide), isPrefixOf_plain (by decide)]
      · have hat : (mark != '@') = true := bne_iff_ne.mpr (ne_of_not_isPlain hc (by decide))
        have hhash : (mark != '#') = true := bne_iff_ne.mpr (ne_of_not_isPlain hc (by decide))
        rw [hplain]
        dsimp only
        rw [hat, hhash]
        rfl

theorem skip_between_char (g : Gap) (hline : ∀ es, c :: cs = '/' :: '/' :: es → False)
    (hblock : ∀ es, c :: cs = '/' :: '*' :: es → False)
    (hmarkup : ∀ es, c :: cs = '<' :: '!' :: '-' :: '-' :: es → False) :
    skip .between g (c :: cs) =
      if isLineEnd c then skip .between { g with isFresh := true } cs
      else if isSpace c then skip .between g cs
      else if g.isFresh && ['-', '-', '>'].isPrefixOf (c :: cs) then skip .lineComment g cs
      else some (g, c :: cs) := by
  rw [skip]
  · rintro es rfl rfl
    exact hline es rfl
  · rintro es rfl rfl
    exact hblock es rfl
  · rintro es rfl rfl
    exact hmarkup es rfl

/-- A backslash begins no space. -/
theorem skip_foreign (g : Gap) (ds : List Char) :
    skip .between g ('\\' :: ds) = some (g, '\\' :: ds) := by
  rw [skip_between_char g (fun _ he => absurd (List.cons.inj he).1 (by decide))
    (fun _ he => absurd (List.cons.inj he).1 (by decide))
    fun _ he => absurd (List.cons.inj he).1 (by decide)]
  simp [isLineEnd, isSpace]

theorem isLineEnd_of_isSome_hexValue? (hd : (hexValue? d).isSome = true) : isLineEnd d = false := by
  simp only [isLineEnd, Bool.or_eq_false_iff, beq_eq_false_iff_ne]
  exact ⟨⟨⟨ne_of_isSome_hexValue? hd rfl, ne_of_isSome_hexValue? hd rfl⟩,
    ne_of_isSome_hexValue? hd rfl⟩, ne_of_isSome_hexValue? hd rfl⟩

theorem skip_lineComment_foreign (hc : isPlain c = false) (g : Gap) (cs : List Char) :
    skip .lineComment g (plain (c :: cs)) = skip .lineComment g (plain cs) := by
  refine collects_foreign (fun _ cs => skip .lineComment g cs) (fun _ cs => rfl)
    (fun _ d cs hd => ?_) hc [] cs
  rw [skip, isLineEnd_of_isSome_hexValue? hd]
  rfl

theorem skip_blockComment_char (g : Gap) (h : ∀ es, c :: cs = '*' :: '/' :: es → False) :
    skip .blockComment g (c :: cs) =
      skip .blockComment { g with isFresh := g.isFresh || isLineEnd c } cs := by
  rw [skip]
  rintro es rfl rfl
  exact h es rfl

theorem skip_blockComment_inside (g : Gap) (hend : isLineEnd c = false) (hstar : c ≠ '*')
    (cs : List Char) : skip .blockComment g (c :: cs) = skip .blockComment g cs := by
  rw [skip_blockComment_char g fun es he => hstar (List.cons.inj he).1, hend, Bool.or_false]

theorem skip_blockComment_foreign (hc : isPlain c = false) (g : Gap) (cs : List Char) :
    skip .blockComment g (plain (c :: cs)) = skip .blockComment g (plain cs) := by
  refine collects_foreign (fun _ cs => skip .blockComment g cs) (fun _ cs => ?_)
    (fun _ d cs hd => ?_) hc [] cs
  · rw [skip_blockComment_inside g rfl (by decide), skip_blockComment_inside g rfl (by decide)]
  · exact skip_blockComment_inside g (isLineEnd_of_isSome_hexValue? hd)
      (ne_of_isSome_hexValue? hd rfl) cs

/-- The space and comments of shorter texts agree. -/
def AgreesBelow (n : Nat) : Prop :=
  ∀ {m : Mode} {e : Bool} {es : List Char} (g : Gap), es.length < n → (e = true → m ≠ .between) →
    isSteady e es = true → PairAgrees id es (skip m g es) (skip m g (plain es))

/-- Where no comment opens, the first character is space, or the token begins with it. -/
theorem agrees_skip_char (hbelow : AgreesBelow (c :: cs).length) (g : Gap)
    (h : isSteady false (c :: cs) = true)
    (hline : ∀ es, c :: cs = '/' :: '/' :: es → False)
    (hblock : ∀ es, c :: cs = '/' :: '*' :: es → False)
    (hmarkup : ∀ es, c :: cs = '<' :: '!' :: '-' :: '-' :: es → False) :
    PairAgrees id (c :: cs) (skip .between g (c :: cs)) (skip .between g (plain (c :: cs))) := by
  have hsteady := isSteadyChar_of_mem h c List.mem_cons_self
  have hpline := ne_prefix_plain ['/', '/'] (by decide) hline
  have hpblock := ne_prefix_plain ['/', '*'] (by decide) hblock
  have hpmarkup := ne_prefix_plain ['<', '!', '-', '-'] (by decide) hmarkup
  have harrow := isPrefixOf_plain
    (by decide : ∀ p ∈ ['-', '-', '>'], isPlain p = true ∧ p ≠ '\\') (c :: cs)
  rw [skip_between_char g hline hblock hmarkup]
  cases hc : isPlain c with
  | false =>
      obtain ⟨d, ds, hplain, ⟨hc', -, -⟩ | ⟨-, rfl⟩⟩ := exists_plain_cons c cs
      · rw [hc] at hc'
        cases hc'
      · have hminus : ('-' == c) = false :=
          beq_false_of_ne (ne_of_not_isPlain hc (by decide)).symm
        rw [isLineEnd_eq_false hc hsteady, isSpace_eq_false hc hsteady, List.isPrefixOf_cons_cons,
          hminus, Bool.false_and, Bool.and_false, hplain, skip_foreign]
        exact .some (by rw [Prod.map, hplain]; rfl) (.refl h)
  | true =>
      have hrest : ∀ (m : Mode) (g : Gap), c ≠ '\\' →
          PairAgrees id (c :: cs) (skip m g cs) (skip m g (plain cs)) := fun m g hne =>
        (hbelow (e := false) g (by simp) (by simp) (isSteady_cons_of_ne hne h)).suffix
          (List.suffix_cons c cs)
      rw [plain_cons hc] at hpline hpblock hpmarkup harrow ⊢
      rw [skip_between_char g hpline hpblock hpmarkup, harrow]
      split
      · rename_i hend
        exact hrest _ _ (by rintro rfl; cases hend)
      · split
        · rename_i hspace
          exact hrest _ _ (by rintro rfl; cases hspace)
        · split
          · rename_i hminus
            rw [Bool.and_eq_true, List.isPrefixOf_cons_cons, Bool.and_eq_true] at hminus
            exact hrest _ _ (by rintro rfl; cases hminus.2.1)
          · exact .some (by rw [Prod.map, plain_cons hc]; rfl) (.refl h)

theorem agrees_skip_between (hbelow : AgreesBelow cs.length) (g : Gap)
    (h : isSteady false cs = true) :
    PairAgrees id cs (skip .between g cs) (skip .between g (plain cs)) := by
  by_cases hline : ∃ es, cs = '/' :: '/' :: es
  · obtain ⟨es, rfl⟩ := hline
    have hes := isSteady_cons_of_ne (by decide) (isSteady_cons_of_ne (by decide) h)
    rw [plain_cons (by decide), plain_cons (by decide), skip, skip,
      annotated_plain _ _ (isSteadyChar_of_mem hes)]
    exact (hbelow _ (by grind) (by simp) hes).suffix ⟨['/', '/'], rfl⟩
  by_cases hblock : ∃ es, cs = '/' :: '*' :: es
  · obtain ⟨es, rfl⟩ := hblock
    have hes := isSteady_cons_of_ne (by decide) (isSteady_cons_of_ne (by decide) h)
    rw [plain_cons (by decide), plain_cons (by decide), skip, skip,
      annotated_plain _ _ (isSteadyChar_of_mem hes)]
    exact (hbelow _ (by grind) (by simp) hes).suffix ⟨['/', '*'], rfl⟩
  by_cases hmarkup : ∃ es, cs = '<' :: '!' :: '-' :: '-' :: es
  · obtain ⟨es, rfl⟩ := hmarkup
    have hes := isSteady_cons_of_ne (by decide) (isSteady_cons_of_ne (by decide)
      (isSteady_cons_of_ne (by decide) (isSteady_cons_of_ne (by decide) h)))
    rw [plain_cons (by decide), plain_cons (by decide), plain_cons (by decide),
      plain_cons (by decide), skip, skip]
    exact (hbelow _ (by grind) (by simp) hes).suffix ⟨['<', '!', '-', '-'], rfl⟩
  cases cs with
  | nil => exact .some rfl (.refl h)
  | cons c cs =>
      exact agrees_skip_char hbelow g h (fun es he => hline ⟨es, he⟩)
        (fun es he => hblock ⟨es, he⟩) fun es he => hmarkup ⟨es, he⟩

theorem agrees_skip_lineComment (hbelow : AgreesBelow cs.length) (g : Gap)
    (h : isSteady e cs = true) :
    PairAgrees id cs (skip .lineComment g cs) (skip .lineComment g (plain cs)) := by
  have hall := isSteadyChar_of_mem h
  cases cs with
  | nil => exact .some rfl ⟨List.suffix_refl _, rfl⟩
  | cons c cs =>
      rw [isSteady, Bool.and_eq_true] at h
      rw [List.forall_mem_cons] at hall
      refine Agrees.suffix ?_ (List.suffix_cons c cs)
      have hnext := hbelow (m := .lineComment) g (by simp) (by simp) h.2
      cases hc : isPlain c with
      | false =>
          rw [skip_lineComment_foreign hc, skip, isLineEnd_eq_false hc hall.1]
          exact hnext
      | true =>
          rw [plain_cons hc, skip, skip]
          split
          · rename_i hend
            refine hbelow _ (by simp) (fun he => ?_) h.2
            rw [Bool.and_eq_true, beq_iff_eq] at he
            rw [he.1] at hend
            cases hend
          · exact hnext

theorem agrees_skip_blockComment (hbelow : AgreesBelow cs.length) (g : Gap)
    (h : isSteady e cs = true) :
    PairAgrees id cs (skip .blockComment g cs) (skip .blockComment g (plain cs)) := by
  have hall := isSteadyChar_of_mem h
  cases cs with
  | nil => exact .none
  | cons c cs =>
      rw [List.forall_mem_cons] at hall
      by_cases hclose : ∃ es, c :: cs = '*' :: '/' :: es
      · obtain ⟨es, he⟩ := hclose
        obtain ⟨rfl, rfl⟩ := List.cons.inj he
        have hes : isSteady false es = true := by
          simp only [isSteady, Bool.and_eq_true] at h
          exact h.2.2
        rw [plain_cons (by decide), plain_cons (by decide)]
        refine Agrees.suffix ?_ ((List.suffix_cons _ es).trans (List.suffix_cons _ _))
        exact hbelow g (by grind) (by simp) hes
      · have hclose' : ∀ es, c :: cs = '*' :: '/' :: es → False := fun es he => hclose ⟨es, he⟩
        rw [isSteady, Bool.and_eq_true] at h
        have hnext := fun g => hbelow (m := .blockComment) g (by simp) (by simp) h.2
        refine Agrees.suffix ?_ (List.suffix_cons c cs)
        rw [skip_blockComment_char g hclose']
        cases hc : isPlain c with
        | false =>
            rw [skip_blockComment_foreign hc, isLineEnd_eq_false hc hall.1, Bool.or_false]
            exact hnext g
        | true =>
            have hplain := ne_prefix_plain ['*', '/'] (by decide) hclose'
            rw [plain_cons hc] at hplain ⊢
            rw [skip_blockComment_char g hplain]
            exact hnext _

/-- Before a token, nothing before the comments and inside them escapes what is behind them. -/
theorem agrees_skip {m : Mode} (hm : e = true → m ≠ .between) (g : Gap) (h : isSteady e cs = true) :
    PairAgrees id cs (skip m g cs) (skip m g (plain cs)) := by
  induction hlength : cs.length using Nat.strongRecOn generalizing cs m g e with
  | ind n ih =>
  subst hlength
  have hbelow : AgreesBelow cs.length := fun g hlt hm hes => ih _ hlt hm g hes rfl
  cases m with
  | between =>
      obtain rfl : e = false := Bool.eq_false_iff.mpr fun he => hm he rfl
      exact agrees_skip_between hbelow g h
  | lineComment => exact agrees_skip_lineComment hbelow g h
  | blockComment => exact agrees_skip_blockComment hbelow g h

end DefineBundle.Script.PlainForm
