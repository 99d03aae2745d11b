import DefineBundle.Proofs.Script.PlainForm.Respelled
import DefineBundle.Proofs.Script.Writing
import DefineBundle.Proofs.Text.Identifiers

/-!
# Names and strings in plain form

An escape in a name or a string is read on its own: the digits of one or two units, a number between
braces, or the few characters of another escape. What the readers of names and strings do at a
backslash is said by these, and in the plain form of a steady text they find the same.
-/
namespace DefineBundle.Script.PlainForm

open DefineBundle.Text DefineBundle.Text.PlainAscii DefineBundle.Script.Literal

variable {c d : Char} {cs ds more rest : List Char} {n k : Nat}

/-- The characters stand at the end of a text, nothing escapes the first of them, and they are
steady. -/
structure Behind (cs rest : List Char) : Prop where
  suffix : rest <:+ cs
  steady : isSteady false rest = true

theorem Behind.refl (h : isSteady false cs = true) : Behind cs cs :=
  ⟨List.suffix_refl cs, h⟩

theorem Behind.trans (h : Behind cs ds) (h' : Behind ds rest) : Behind cs rest :=
  ⟨h'.suffix.trans h.suffix, h'.steady⟩

theorem Behind.cons (h : Behind cs rest) (c : Char) : Behind (c :: cs) rest :=
  ⟨h.suffix.trans (List.suffix_cons c cs), h.steady⟩

theorem Behind.length_le (h : Behind cs rest) : rest.length ≤ cs.length :=
  h.suffix.length_le

/-- Induction along a steady text. An escape may be read in one go, so behind a backslash the text
goes on anywhere. -/
@[elab_as_elim]
theorem isSteady_induction {motive : (cs : List Char) → isSteady false cs = true → Prop}
    (nil : motive [] rfl)
    (backslash : ∀ (cs : List Char) (h : isSteady false ('\\' :: cs) = true),
      (∀ {rest : List Char} (hrest : Behind cs rest), motive rest hrest.steady) →
        motive ('\\' :: cs) h)
    (foreign : ∀ (c : Char) (cs : List Char) (h : isSteady false (c :: cs) = true)
      (hcs : isSteady false cs = true), c ≠ '\\' → isPlain c = false → motive cs hcs →
        motive (c :: cs) h)
    (char : ∀ (c : Char) (cs : List Char) (h : isSteady false (c :: cs) = true),
      isSteady false cs = true → c ≠ '\\' → isPlain c = true →
        (∀ {rest : List Char} (hrest : Behind cs rest), motive rest hrest.steady) →
          motive (c :: cs) h)
    (cs : List Char) (h : isSteady false cs = true) : motive cs h := by
  induction hlength : cs.length using Nat.strongRecOn generalizing cs with
  | ind n ih =>
  subst hlength
  cases cs with
  | nil => exact nil
  | cons c cs =>
      have hbelow : ∀ {rest : List Char} (hrest : Behind cs rest), motive rest hrest.steady :=
        fun hrest => ih _ (Nat.lt_succ_of_le hrest.length_le) _ hrest.steady rfl
      by_cases hback : c = '\\'
      · subst hback
        exact backslash cs h hbelow
      · have hcs := isSteady_cons_of_ne hback h
        cases hc : isPlain c with
        | false => exact foreign c cs h hcs hback hc (hbelow (.refl hcs))
        | true => exact char c cs h hcs hback hc hbelow

/-- What a reader finds in a text and what it finds in the plain form are the same up to `f`, and
what is found in the text leaves characters of it behind. -/
def Agrees {α : Type} (f : α → α) (left : α → List Char) (cs : List Char) (x y : Option α) : Prop :=
  y = x.map f ∧ ∀ a, x = some a → Behind cs (left a)

/-- The same for what is found in front of characters. -/
abbrev PairAgrees {α : Type} (f : α → α) : List Char → Option (α × List Char) →
    Option (α × List Char) → Prop :=
  Agrees (Prod.map f plain) Prod.snd

section Agrees

variable {α β : Type} {f : α → α} {g : β → β} {left : α → List Char} {left' : β → List Char}
  {x y : Option α}

theorem Agrees.none : Agrees f left cs none none :=
  ⟨rfl, fun _ h => by cases h⟩

theorem Agrees.some {a b : α} (hb : b = f a) (h : Behind cs (left a)) :
    Agrees f left cs (some a) (some b) :=
  ⟨congrArg Option.some hb, fun _ he => Option.some.inj he ▸ h⟩

theorem Agrees.suffix (h : Agrees f left ds x y) (hds : ds <:+ cs) : Agrees f left cs x y :=
  ⟨h.1, fun a he => ⟨(h.2 a he).suffix.trans hds, (h.2 a he).steady⟩⟩

theorem Agrees.behind (h : Agrees f left ds x y) (hds : Behind cs ds) : Agrees f left cs x y :=
  h.suffix hds.suffix

theorem Agrees.bind {k k' : α → Option β} (h : Agrees f left cs x y)
    (hk : ∀ a, Behind cs (left a) → Agrees g left' cs (k a) (k' (f a))) :
    Agrees g left' cs (x.bind k) (y.bind k') := by
  obtain ⟨rfl, hx⟩ := h
  cases x with
  | none => exact .none
  | some a => exact hk a (hx a rfl)

theorem Agrees.map {m m' : α → β} (h : Agrees f left cs x y) (hm : ∀ a, m' (f a) = g (m a))
    (hleft : ∀ a, left' (m a) = left a) : Agrees g left' cs (x.map m) (y.map m') := by
  obtain ⟨rfl, hx⟩ := h
  cases x with
  | none => exact .none
  | some a => exact .some (hm a) ((hleft a).symm ▸ hx a rfl)

end Agrees

theorem isPlain_of_hexValue? {v : Nat} (h : hexValue? d = some v) :
    isPlain d = true ∧ d ≠ '\\' := by
  have hne : d ≠ '\\' := by
    rintro rfl
    cases h
  refine ⟨?_, hne⟩
  unfold hexValue? at h
  have hrange : 0x20 ≤ d.toNat ∧ d.toNat ≤ 0x7E := by
    split at h
    · rename_i hd
      simp only [Bool.and_eq_true, decide_eq_true_eq, Char.le_def, UInt32.le_iff_toNat_le] at hd
      exact ⟨Nat.le_trans (by decide) hd.1, Nat.le_trans hd.2 (by decide)⟩
    · split at h
      · rename_i hd
        simp only [Bool.and_eq_true, decide_eq_true_eq, Char.le_def, UInt32.le_iff_toNat_le] at hd
        exact ⟨Nat.le_trans (by decide) hd.1, Nat.le_trans hd.2 (by decide)⟩
      · split at h
        · rename_i hd
          simp only [Bool.and_eq_true, decide_eq_true_eq, Char.le_def, UInt32.le_iff_toNat_le] at hd
          exact ⟨Nat.le_trans (by decide) hd.1, Nat.le_trans hd.2 (by decide)⟩
        · cases h
  simp [isPlain, hrange]

theorem hexValue?_eq_none (hd : isPlain d = false) : hexValue? d = none := by
  cases hv : hexValue? d with
  | none => rfl
  | some v =>
      rw [(isPlain_of_hexValue? hv).1] at hd
      cases hd

theorem exists_plain_cons (c : Char) (cs : List Char) : ∃ d ds, plain (c :: cs) = d :: ds ∧
    (isPlain c = true ∧ d = c ∧ ds = plain cs ∨ isPlain c = false ∧ d = '\\') := by
  cases hc : isPlain c with
  | true => exact ⟨c, plain cs, plain_cons hc cs, .inl ⟨rfl, rfl, rfl⟩⟩
  | false =>
      have h := escaped_plain_cons hc cs
      generalize plain (c :: cs) = w at h
      cases h with
      | unit => exact ⟨_, _, rfl, .inr ⟨rfl, rfl⟩⟩
      | pair => exact ⟨_, _, rfl, .inr ⟨rfl, rfl⟩⟩

theorem agrees_hexDigits? (k n : Nat) (h : isSteady false cs = true) :
    PairAgrees id cs (hexDigits? k n cs) (hexDigits? k n (plain cs)) := by
  induction k generalizing n cs with
  | zero => exact .some rfl (.refl h)
  | succ k ih =>
      cases cs with
      | nil => exact .none
      | cons d cs =>
          cases hv : hexValue? d with
          | some v =>
              obtain ⟨hplain, hne⟩ := isPlain_of_hexValue? hv
              have hcs := isSteady_cons_of_ne hne h
              simp only [hexDigits?, plain_cons hplain, hv, Option.bind_some]
              exact (ih (16 * n + v) hcs).behind ((Behind.refl hcs).cons d)
          | none =>
              obtain ⟨e, es, hplain, he⟩ := exists_plain_cons d cs
              have hnone : hexValue? e = none := by
                rcases he with ⟨-, rfl, -⟩ | ⟨-, rfl⟩
                · exact hv
                · rfl
              simp only [hexDigits?, hplain, hv, hnone, Option.bind_none]
              exact .none

theorem agrees_unit? (h : isSteady false cs = true) :
    PairAgrees id cs (unit? cs) (unit? (plain cs)) :=
  agrees_hexDigits? 4 0 h

theorem plain_eq_cons_iff (hd : isPlain d = true) (hne : d ≠ '\\') :
    plain cs = d :: ds ↔ ∃ es, cs = d :: es ∧ plain es = ds := by
  cases cs with
  | nil => simp [plain_nil]
  | cons c cs =>
      obtain ⟨e, es, hplain, ⟨hc, rfl, rfl⟩ | ⟨hc, rfl⟩⟩ := exists_plain_cons c cs
      · rw [hplain]
        constructor
        · intro he
          obtain ⟨rfl, rfl⟩ := List.cons.inj he
          exact ⟨cs, rfl, rfl⟩
        · rintro ⟨es, he, rfl⟩
          obtain ⟨rfl, rfl⟩ := List.cons.inj he
          rfl
      · rw [hplain]
        constructor
        · intro he
          exact absurd (List.cons.inj he).1.symm hne
        · rintro ⟨fs, he, -⟩
          rw [(List.cons.inj he).1, hd] at hc
          cases hc

theorem head?_plain (hd : isPlain d = true) (hne : d ≠ '\\') :
    (plain cs).head? = some d ↔ cs.head? = some d := by
  simp only [List.head?_eq_some_iff, plain_eq_cons_iff hd hne]
  constructor
  · rintro ⟨ds, es, rfl, -⟩
    exact ⟨es, rfl⟩
  · rintro ⟨es, rfl⟩
    exact ⟨plain es, es, rfl, rfl⟩

/-- The number that digits up to a closing brace write, and the characters after the brace; `code`
is the number so far. -/
def braced? : Option Nat → List Char → Option (Nat × List Char)
  | code, '\x7d' :: cs => code.map fun n => (n, cs)
  | code, d :: cs =>
      (hexValue? d).bind fun v =>
        if 16 * code.getD 0 + v < 0x110000 then braced? (some (16 * code.getD 0 + v)) cs else none
  | _, [] => none

theorem braced?_cons (code : Option Nat) (hd : d ≠ '\x7d') (cs : List Char) :
    braced? code (d :: cs) = (hexValue? d).bind fun v =>
      if 16 * code.getD 0 + v < 0x110000 then braced? (some (16 * code.getD 0 + v)) cs
      else none := by
  rw [braced?]
  exact fun he => absurd he hd

theorem agrees_braced? (code : Option Nat) (h : isSteady false cs = true) :
    PairAgrees id cs (braced? code cs) (braced? code (plain cs)) := by
  induction cs generalizing code with
  | nil => exact .none
  | cons d cs ih =>
      by_cases hd : d = '\x7d'
      · subst hd
        have hcs := isSteady_cons_of_ne (by decide) h
        rw [plain_cons (by decide)]
        cases code with
        | none => exact .none
        | some n => exact .some rfl ((Behind.refl hcs).cons _)
      · obtain ⟨e, es, hplain, he⟩ := exists_plain_cons d cs
        rw [hplain, braced?_cons code hd]
        rcases he with ⟨hp, rfl, rfl⟩ | ⟨hp, rfl⟩
        · rw [braced?_cons code hd]
          cases hv : hexValue? e with
          | none => exact .none
          | some v =>
              have hcs := isSteady_cons_of_ne (isPlain_of_hexValue? hv).2 h
              simp only [Option.bind_some]
              split
              · exact (ih _ hcs).behind ((Behind.refl hcs).cons e)
              · exact .none
        · rw [hexValue?_eq_none hp, braced?_cons code (by decide)]
          exact .none

section Names

variable {acc : List Char} {e : Bool} {accept : List Char → Char → Bool}

theorem nameTail_braced (code : Option Nat) (cs : List Char) :
    nameTail accept (some code) acc e cs =
      (braced? code cs).bind fun z => (charOf? z.1).bind fun c =>
      if accept acc c then nameTail accept none (c :: acc) true z.2 else none := by
  induction cs generalizing code e with
  | nil => rfl
  | cons d cs ih =>
      by_cases hd : d = '\x7d'
      · subst hd
        rw [nameTail, braced?]
        cases code with
        | none => rfl
        | some n =>
            simp only [Option.bind_some, Option.map_some]
            cases charOf? n <;> rfl
      · rw [braced?_cons code hd, nameTail]
        · cases hexValue? d with
          | none => rfl
          | some v =>
              simp only [Option.bind_some]
              split
              · exact ih _
              · rfl
        · exact fun he => absurd he hd

/-- Four characters that write a unit, or fewer than four, which write none. -/
theorem unit?_eq (ds : List Char) : unit? ds = match ds with
    | a :: b :: c :: d :: ds => (hexNumber? [a, b, c, d]).map fun n => (n, ds)
    | _ => none := by
  match ds with
  | [] => rfl
  | [a] => cases ha : hexValue? a <;> simp [unit?, hexDigits?, ha]
  | [a, b] => cases ha : hexValue? a <;> cases hb : hexValue? b <;> simp [unit?, hexDigits?, ha, hb]
  | [a, b, c] =>
      cases ha : hexValue? a <;> cases hb : hexValue? b <;> cases hc : hexValue? c <;>
        simp [unit?, hexDigits?, ha, hb, hc]
  | a :: b :: c :: d :: ds =>
      cases ha : hexValue? a <;> cases hb : hexValue? b <;> cases hc : hexValue? c <;>
        cases hd : hexValue? d <;> simp [unit?, hexDigits?, hexNumber?, ha, hb, hc, hd]

theorem unit?_four (a b c d : Char) (ds : List Char) :
    unit? (a :: b :: c :: d :: ds) = (hexNumber? [a, b, c, d]).map fun n => (n, ds) :=
  unit?_eq _

theorem nameTail_unit (hbrace : ds.head? ≠ some '\x7b') :
    nameTail accept none acc e ('\\' :: 'u' :: ds) = (unit? ds).bind fun z =>
      (charOf? z.1).bind fun c =>
        if accept acc c then nameTail accept none (c :: acc) true z.2 else none := by
  rw [unit?_eq]
  split
  · rename_i a b c d ds
    rw [nameTail]
    · cases hexNumber? [a, b, c, d] with
      | none => rfl
      | some n =>
          simp only [Option.bind_some, Option.map_some]
          cases charOf? n <;> rfl
    · rintro rfl
      exact hbrace rfl
  · rename_i hshort
    rw [nameTail, if_pos (by decide)]
    · rfl
    · rintro cs - he
      rw [(List.cons.inj he).2] at hbrace
      exact hbrace rfl
    · rintro a b c d cs - he
      exact hshort a b c d cs (List.cons.inj he).2

theorem nameTail_char (hc : c ≠ '\\') :
    nameTail accept none acc e (c :: cs) =
      if accept acc c then nameTail accept none (c :: acc) e cs
      else if isStray c then none else some (acc, e, c :: cs) := by
  rw [nameTail, if_neg (by simpa using hc)]
  · exact fun ds he => absurd he hc
  · exact fun a b d e ds he => absurd he hc

theorem nameTail_backslash (hu : cs.head? ≠ some 'u') :
    nameTail accept none acc e ('\\' :: cs) = none := by
  rw [nameTail, if_pos (by decide)]
  · rintro ds - rfl
    exact hu rfl
  · rintro a b c d ds - rfl
    exact hu rfl

/-- What a reader finds of a name: the characters and whether there were escapes, which there are in
plain form where characters are not plain. -/
abbrev NameAgrees : List Char → Option (List Char × Bool × List Char) →
    Option (List Char × Bool × List Char) → Prop :=
  Agrees (fun z => (z.1, z.2.1 || foreign z.1, plain z.2.2)) (·.2.2)

/-- Names go on alike behind an escape, given that shorter texts are read alike. -/
theorem agrees_escapedName {z : Nat × List Char}
    (ih : ∀ acc, NameAgrees z.2 (nameTail fitsName none acc true z.2)
      (nameTail fitsName none acc true (plain z.2))) (acc : List Char) :
    NameAgrees z.2
      ((charOf? z.1).bind fun c =>
        if fitsName acc c then nameTail fitsName none (c :: acc) true z.2 else none)
      ((charOf? z.1).bind fun c =>
        if fitsName acc c then nameTail fitsName none (c :: acc) true (plain z.2) else none) := by
  cases charOf? z.1 with
  | none => exact .none
  | some c =>
      simp only [Option.bind_some]
      split
      · exact ih (c :: acc)
      · exact .none

theorem isNamePart_of_fitsName (h : fitsName acc c = true) : isNamePart c = true := by
  unfold fitsName at h
  split at h
  · exact isNamePart_of_isNameStart h
  · exact h

theorem charOf?_eq_none (h : isHigh n = true) : charOf? n = none := by
  simp only [isHigh, Bool.and_eq_true, decide_eq_true_eq] at h
  rw [charOf?, if_neg]
  simp only [Bool.or_eq_true, Bool.and_eq_true, decide_eq_true_eq]
  omega

/-- The plain form of a character that is not plain is read like the character. -/
theorem agrees_nameTail_foreign (hc : isPlain c = false) (h : isSteady false (c :: cs) = true)
    (ih : ∀ acc e, NameAgrees cs (nameTail fitsName none acc e cs)
      (nameTail fitsName none acc (e || foreign acc) (plain cs))) (acc : List Char) (e : Bool) :
    NameAgrees (c :: cs) (nameTail fitsName none acc e (c :: cs))
      (nameTail fitsName none acc (e || foreign acc) (plain (c :: cs))) := by
  have hne : c ≠ '\\' := ne_of_not_isPlain hc (by decide)
  have hsteady := isSteadyChar_of_isSteady h
  have hcs := isSteady_cons_of_ne hne h
  have hescaped := escaped_plain_cons hc cs
  rw [nameTail_char hne, isStray_eq_true hc hsteady, if_pos rfl]
  generalize plain (c :: cs) = w at hescaped
  cases hescaped with
  | unit hsmall hn =>
      rw [nameTail_unit (head?_ne_brace hn), hn, Option.bind_some, charOf?_toNat, Option.bind_some]
      split
      · have hall := (ih (c :: acc) e).behind ((Behind.refl hcs).cons c)
        have hforeign : foreign (c :: acc) = true := by simp [foreign, hc]
        rwa [hforeign, Bool.or_true] at hall
      · exact .none
  | pair hlarge hhigh _ _ hn _ =>
      have hfits : ¬ fitsName acc c = true := fun hfits => by
        have hpart := isNamePart_of_fitsName hfits
        rw [isNamePart_eq_false_of_le hc hsteady hlarge] at hpart
        cases hpart
      rw [if_neg hfits, nameTail_unit (head?_ne_brace hn), hn, Option.bind_some,
        charOf?_eq_none hhigh]
      exact .none

theorem agrees_nameTail (acc : List Char) (e : Bool) (h : isSteady false cs = true) :
    NameAgrees cs (nameTail fitsName none acc e cs)
      (nameTail fitsName none acc (e || foreign acc) (plain cs)) := by
  induction cs, h using isSteady_induction generalizing acc e with
  | nil => exact .some rfl (.refl rfl)
  | backslash cs h ih =>
      cases cs with
      | nil => exact .none
      | cons d ds =>
          obtain ⟨hd, hds⟩ := isSteady_escape h
          rw [plain_cons (by decide), plain_cons hd]
          by_cases hu : d = 'u'
          · subst hu
            have hshort : ∀ {rest : List Char}, Behind ds rest → ∀ acc,
                NameAgrees rest (nameTail fitsName none acc true rest)
                  (nameTail fitsName none acc true (plain rest)) :=
              fun hrest acc => ih (hrest.cons _) acc true
            refine Agrees.behind ?_ (((Behind.refl hds).cons _).cons _)
            by_cases hb : ds.head? = some '\x7b'
            · obtain ⟨es, rfl⟩ := List.head?_eq_some_iff.mp hb
              have hes := isSteady_cons_of_ne (by decide) hds
              rw [plain_cons (by decide), nameTail, nameTail, nameTail_braced, nameTail_braced]
              refine Agrees.behind ?_ ((Behind.refl hes).cons _)
              exact (agrees_braced? none hes).bind fun z hz =>
                (agrees_escapedName (hshort (hz.cons _)) acc).behind hz
            · have hb' := mt (head?_plain (by decide) (by decide)).mp hb
              rw [nameTail_unit hb, nameTail_unit hb']
              exact (agrees_unit? hds).bind fun z hz =>
                (agrees_escapedName (hshort hz) acc).behind hz
          · rw [nameTail_backslash (by simpa using hu), nameTail_backslash (by simpa using hu)]
            exact .none
  | foreign c cs h hcs _ hc ih => exact agrees_nameTail_foreign hc h ih acc e
  | char c cs h hcs hback hc ih =>
      rw [plain_cons hc, nameTail_char hback, nameTail_char hback]
      split
      · have hall := (ih (.refl hcs) (c :: acc) e).behind ((Behind.refl hcs).cons c)
        have hforeign : foreign (c :: acc) = foreign acc := by simp [foreign, hc]
        rwa [hforeign] at hall
      · split
        · exact .none
        · exact .some (by rw [plain_cons hc]) (.refl h)

theorem name?_eq_bind (cs : List Char) : name? cs = (nameTail fitsName none [] false cs).bind
    fun z => if z.1.isEmpty then none else some (String.ofList z.1.reverse, z.2) := by
  unfold name?
  cases nameTail fitsName none [] false cs with
  | none => rfl
  | some z =>
      obtain ⟨acc, e, rest⟩ := z
      cases acc <;> rfl

/-- A name is the same in plain form, where it has escapes if not all of it is plain. -/
theorem agrees_name? (h : isSteady false cs = true) :
    Agrees (fun z : String × Bool × List Char => (z.1, z.2.1 || foreign z.1.toList, plain z.2.2))
      (·.2.2) cs (name? cs) (name? (plain cs)) := by
  rw [name?_eq_bind, name?_eq_bind]
  refine (agrees_nameTail [] false h).bind fun z hz => ?_
  split
  · exact .none
  · exact .some (by simp [foreign]) hz

end Names

end DefineBundle.Script.PlainForm
