import DefineBundle.Proofs.Script.PlainForm.RawTexts
import DefineBundle.Proofs.Script.Punctuation

/-!
# Tokens in plain form

Punctuation is plain, and what is not plain at the start of a token is a name or nothing. So in the
plain form of a steady text the same tokens are read up to how they are written, with the same space
and the same words of comments in front of them.
-/
namespace DefineBundle.Script.PlainForm

open DefineBundle.Text DefineBundle.Text.PlainAscii DefineBundle.Script.Literal
open DefineBundle.Script.Token (nameToken? next?_eq_nameToken? next?_other of_startsMark
  punctuation?_eq_none_iff startsMark startsMark_of_punctuation?)

variable {c d : Char} {cs ds rest : List Char}

theorem isPlain_of_startsMark (h : startsMark c = true) : isPlain c = true :=
  of_startsMark (by decide) h

theorem ne_prefix_plain (ps : List Char) (hps : ∀ p ∈ ps, isPlain p = true ∧ p ≠ '\\')
    (h : ∀ es, ds = ps ++ es → False) : ∀ es, plain ds = ps ++ es → False := by
  induction ps generalizing ds with
  | nil => exact fun _ _ => h ds rfl
  | cons p ps ih =>
      obtain ⟨⟨hp, hne⟩, hps⟩ := List.forall_mem_cons.mp hps
      intro es he
      obtain ⟨fs, rfl, hfs⟩ := (plain_eq_cons_iff hp hne).mp he
      exact ih hps (fun es he => h es (by rw [he]; rfl)) es hfs

theorem behind_of_cons (hne : c ≠ '\\') (h : isSteady false cs = true → Behind cs rest) :
    isSteady false (c :: cs) = true → Behind (c :: cs) rest :=
  fun hc => (h (isSteady_cons_of_ne hne hc)).cons c

/-- The token is read in the plain form as well, in front of what is behind it. -/
structure Marks (cs : List Char) (z : Token × List Char) : Prop where
  plain : Token.punctuation? (plain cs) = some (z.1, PlainForm.plain z.2)
  respelled : z.1.respelled = z.1
  behind : isSteady false cs = true → Behind cs z.2

theorem optionalDot_plain (cs : List Char) :
    Token.punctuation? (plain ('?' :: '.' :: cs)) =
      (Token.punctuation? ('?' :: '.' :: cs)).map (Prod.map id plain) := by
  have hall : ∀ es : List Char, Token.punctuation? ('?' :: '.' :: es) =
      if es.head?.any Char.isDigit then some (.mark .question, '.' :: es)
      else some (.mark .optionalDot, es) := fun es => by
    cases es <;> rfl
  rw [plain_cons (by decide), plain_cons (by decide), hall, hall, any_isDigit_head?_plain]
  split
  · exact congrArg (fun es => some (Token.mark .question, es)) (plain_cons (by decide) cs).symm
  · rfl

theorem marks_of_punctuation? {z : Token × List Char} (h : Token.punctuation? cs = some z) :
    Marks cs z := by
  have hx := h
  rw [Token.punctuation?.eq_def] at h
  split at h
  case h_58 ds =>
    have hz : z = (.mark .question, '.' :: ds) ∨ z = (.mark .optionalDot, ds) := by
      split at h
      · split at h
        · exact .inl (Option.some.inj h).symm
        · exact .inr (Option.some.inj h).symm
      · exact .inr (Option.some.inj h).symm
    refine ⟨by rw [optionalDot_plain, hx]; rfl, ?_, ?_⟩
    · rcases hz with rfl | rfl <;> rfl
    · refine behind_of_cons (by decide) ?_
      rcases hz with rfl | rfl
      · exact Behind.refl
      · exact behind_of_cons (by decide) Behind.refl
  case h_60 => cases h
  all_goals
    obtain rfl := Option.some.inj h
    refine ⟨?_, rfl, ?_⟩
    · iterate rw [plain_cons (by decide)]
      rw [Token.punctuation?]
      all_goals first
        | assumption
        | exact ne_prefix_plain [_] (by decide) ‹_›
        | exact ne_prefix_plain [_, _] (by decide) ‹_›
        | exact ne_prefix_plain [_, _, _] (by decide) ‹_›
    · iterate refine behind_of_cons (by decide) ?_
      exact Behind.refl

theorem punctuation?_plain_eq_none (h : Token.punctuation? cs = none) :
    Token.punctuation? (plain cs) = none := by
  cases cs with
  | nil => rfl
  | cons c cs =>
      obtain ⟨d, ds, hplain, hd⟩ := exists_plain_cons c cs
      rw [hplain]
      cases hy : Token.punctuation? (d :: ds) with
      | none => rfl
      | some z =>
          have hstart := startsMark_of_punctuation? hy
          rcases hd with ⟨-, rfl, -⟩ | ⟨-, rfl⟩
          · rw [punctuation?_eq_none_iff.mp h] at hstart
            cases hstart
          · cases hstart

theorem agrees_punctuation? (h : isSteady false cs = true) :
    PairAgrees Token.respelled cs (Token.punctuation? cs) (Token.punctuation? (plain cs)) := by
  cases hx : Token.punctuation? cs with
  | none =>
      rw [punctuation?_plain_eq_none hx]
      exact .none
  | some z =>
      have hz := marks_of_punctuation? hx
      rw [hz.plain]
      exact .some (by rw [Prod.map, hz.respelled]) (hz.behind h)

theorem agrees_nameToken? (h : isSteady false cs = true) :
    PairAgrees Token.respelled cs (nameToken? cs) (nameToken? (plain cs)) := by
  refine (agrees_name? h).map ?_ ?_ <;> exact fun _ => rfl

theorem isName_of_next? {t : Token} (hc : isPlain c = false ∨ c = '\\')
    (h : Token.next? (c :: cs) = some (t, rest)) : ∃ n e, t = .name n e := by
  have hkind : (c ≠ '#' ∧ c ≠ '"' ∧ c ≠ '\'') ∧ c.isDigit = false ∧ startsMark c = false := by
    rcases hc with hc | rfl
    · have hne : ∀ {d : Char}, isPlain d = true → c ≠ d := ne_of_not_isPlain hc
      refine ⟨⟨hne rfl, hne rfl, hne rfl⟩, ?_, ?_⟩
      · exact Bool.eq_false_iff.mpr fun hd => hne (isPlain_of_isDigit hd).1 rfl
      · exact Bool.eq_false_iff.mpr fun hd => hne (isPlain_of_startsMark hd) rfl
    · decide
  obtain ⟨hquote, hdigit, hmark⟩ := hkind
  rw [next?_eq_nameToken? hquote hdigit hmark] at h
  obtain ⟨z, -, hz⟩ := Option.map_eq_some_iff.mp h
  exact ⟨_, _, (Prod.mk.inj hz).1.symm⟩

theorem next?_point (cs : List Char) : Token.next? ('.' :: cs) =
    if cs.head?.any Char.isDigit then number? ('.' :: cs) else Token.punctuation? ('.' :: cs) := by
  cases cs with
  | nil => rfl
  | cons d ds => rfl

theorem Agrees.or {α : Type} {f : α → α} {left : α → List Char} {x y x' y' : Option α}
    (h : Agrees f left cs x y) (h' : Agrees f left cs x' y') :
    Agrees f left cs (x.or x') (y.or y') := by
  obtain ⟨rfl, hx⟩ := h
  cases x with
  | none => exact h'
  | some a => exact .some rfl (hx a rfl)

theorem agrees_next?_other (hc : c ≠ '#' ∧ c ≠ '"' ∧ c ≠ '\'' ∧ c ≠ '.')
    (h : isSteady false (c :: cs) = true) :
    PairAgrees Token.respelled (c :: cs) (Token.next? (c :: cs))
      (Token.next? (plain (c :: cs))) := by
  obtain ⟨d, ds, hplain, hdigit, -⟩ := exists_plain_of_kind (p := Char.isDigit)
    (fun _ hd => (isPlain_of_isDigit hd).1) rfl c cs
  have hd : d ≠ '#' ∧ d ≠ '"' ∧ d ≠ '\'' ∧ d ≠ '.' := by
    obtain ⟨e, es, he, ⟨-, rfl, -⟩ | ⟨-, rfl⟩⟩ := exists_plain_cons c cs
    · obtain ⟨rfl, -⟩ := List.cons.inj (hplain.symm.trans he)
      exact hc
    · obtain ⟨rfl, -⟩ := List.cons.inj (hplain.symm.trans he)
      decide
  rw [hplain, next?_other hc, next?_other hd, ← hplain, hdigit]
  split
  · exact agrees_number? h
  · exact (agrees_punctuation? h).or (agrees_nameToken? h)

theorem agrees_next? (h : isSteady false cs = true) :
    PairAgrees Token.respelled cs (Token.next? cs) (Token.next? (plain cs)) := by
  cases cs with
  | nil => exact .some rfl (.refl h)
  | cons c cs =>
      by_cases hpoint : c = '.'
      · subst hpoint
        have hnumber := agrees_number? h
        have hmark := agrees_punctuation? h
        rw [plain_cons (by decide)] at hnumber hmark ⊢
        rw [next?_point, next?_point, any_isDigit_head?_plain]
        split
        · exact hnumber
        · exact hmark
      by_cases hhash : c = '#'
      · subst hhash
        have hcs := isSteady_cons_of_ne (by decide) h
        rw [plain_cons (by decide)]
        refine Agrees.suffix ?_ (List.suffix_cons '#' cs)
        refine (agrees_name? hcs).map ?_ ?_ <;> exact fun _ => rfl
      by_cases hquote : c = '"' ∨ c = '\''
      · have hkind : isPlain c = true ∧ c ≠ '\\' := by rcases hquote with rfl | rfl <;> decide
        have hstring := agrees_string? hquote (isSteady_cons_of_ne hkind.2 h)
        rw [plain_cons hkind.1]
        rcases hquote with rfl | rfl <;> exact hstring
      · refine agrees_next?_other ⟨hhash, ?_, ?_, hpoint⟩ h
        · exact fun he => hquote (.inl he)
        · exact fun he => hquote (.inr he)

end DefineBundle.Script.PlainForm
