import DefineBundle.Proofs.Lists.Traversals
import DefineBundle.Proofs.Script.PlainForm.Scripts
import DefineBundle.Script.Print

/-!
# What plain forms mean

The raw text of a template or a directive stands for code units, and the pattern of a regular
expression names units and characters. The plain form of a raw text stands for the same units and
names the same ones, so a script and what is read of its plain form are the same program.
-/
namespace DefineBundle.Script.PlainForm

open DefineBundle.Text DefineBundle.Text.PlainAscii DefineBundle.Script.Literal

variable {c d : Char} {cs ds rest : List Char} {ns : List Nat}

/-- The UTF-16 units of a code point. -/
def pointUnits (n : Nat) : List Nat :=
  if n < 0x10000 then [n] else [0xD800 + (n - 0x10000) / 0x400, 0xDC00 + (n - 0x10000) % 0x400]

theorem pointUnits_pairValue {high low : Nat} (hhigh : isHigh high = true)
    (hlow : isLow low = true) : pointUnits (pairValue high low) = [high, low] := by
  simp only [isHigh, isLow, Bool.and_eq_true, decide_eq_true_eq] at hhigh hlow
  have hlarge : ¬pairValue high low < 0x10000 := by
    unfold pairValue
    omega
  have hfirst : 0xD800 + (pairValue high low - 0x10000) / 0x400 = high := by
    unfold pairValue
    omega
  have hsecond : 0xDC00 + (pairValue high low - 0x10000) % 0x400 = low := by
    unfold pairValue
    omega
  rw [pointUnits, if_neg hlarge, hfirst, hsecond]

/-- The units that raw text in front of its closing backquote stands for. -/
inductive Stands : List Char → List Nat → Prop
  | close : Stands ['`'] []
  | char {c : Char} {cs : List Char} {ns : List Nat} (hc : c ≠ '\\') (h : Stands cs ns) :
      Stands (c :: cs) (units c ++ ns)
  | escape {cs rest : List Char} {points ns : List Nat} (he : escape? cs = some (points, rest))
      (h : Stands rest ns) : Stands ('\\' :: cs) (points.reverse.flatMap pointUnits ++ ns)

theorem stands_char (hc : c ≠ '\\') (hopen : c ≠ '`' ∨ cs ≠ []) :
    Stands (c :: cs) ns ↔ ∃ ms, ns = units c ++ ms ∧ Stands cs ms := by
  constructor
  · intro h
    cases h with
    | close => exact (hopen.elim (· rfl) (· rfl)).elim
    | char _ h => exact ⟨_, rfl, h⟩
    | escape => exact absurd rfl hc
  · rintro ⟨ms, rfl, h⟩
    exact .char hc h

theorem stands_escape : Stands ('\\' :: cs) ns ↔
    ∃ z ms, escape? cs = some z ∧ ns = z.1.reverse.flatMap pointUnits ++ ms ∧ Stands z.2 ms := by
  constructor
  · intro h
    cases h with
    | char hc _ => exact absurd rfl hc
    | escape he h => exact ⟨_, _, he, rfl, h⟩
  · rintro ⟨z, ms, he, rfl, h⟩
    exact .escape he h

theorem escape?_unit {n : Nat} (h : unit? ds = some (n, rest)) :
    escape? ('u' :: ds) = some ([(paired n rest).1], (paired n rest).2) := by
  have hbrace : (ds.head? == some '\x7b') = false := beq_false_of_ne (head?_ne_brace h)
  rw [escape?, hbrace, h]
  rfl

theorem escape?_foreign (hc : isPlain c = false) (cs : List Char) :
    ∃ es, plain (c :: cs) = '\\' :: es ∧ escape? es = some ([c.toNat], plain cs) := by
  have hescaped := escaped_plain_cons hc cs
  generalize plain (c :: cs) = w at hescaped
  cases hescaped with
  | @unit ds hsmall hn =>
      refine ⟨_, rfl, ?_⟩
      rw [escape?_unit hn, paired_of_not_isHigh (not_isSurrogate_toNat c).1]
  | pair hlarge hhigh hlow hpair hn hm =>
      refine ⟨_, rfl, ?_⟩
      rw [escape?_unit hn, paired_unit _ hm, hhigh, hlow, ← hpair]
      rfl

/-- The plain form of raw text stands for what the raw text stands for. -/
theorem stands_plain (h : isSteady false cs = true) (ns : List Nat) :
    Stands (plain cs) ns ↔ Stands cs ns := by
  induction cs, h using isSteady_induction generalizing ns with
  | nil => rfl
  | backslash cs h ih =>
      obtain ⟨hescape, hrest⟩ := agrees_escape? h
      rw [plain_cons (by decide), stands_escape, stands_escape, hescape]
      cases he : escape? cs with
      | none => simp
      | some z => simp [Prod.map, ih (hrest z he)]
  | foreign c cs h hcs hback hc ih =>
      obtain ⟨es, hplain, hes⟩ := escape?_foreign hc cs
      have hunits : [c.toNat].reverse.flatMap pointUnits = units c := List.append_nil _
      rw [hplain, stands_escape, hes, stands_char hback (.inl (ne_of_not_isPlain hc rfl))]
      constructor
      · rintro ⟨_, ms, ⟨⟩, hns, hms⟩
        exact ⟨ms, hunits ▸ hns, (ih ms).mp hms⟩
      · rintro ⟨ms, hns, hms⟩
        exact ⟨_, ms, rfl, hunits.symm ▸ hns, (ih ms).mpr hms⟩
  | char c cs h hcs hback hc ih =>
      rw [plain_cons hc]
      by_cases hopen : c ≠ '`' ∨ cs ≠ []
      · have hopen' : c ≠ '`' ∨ plain cs ≠ [] := by
          rwa [Ne, Ne, ← List.isEmpty_iff, isEmpty_plain, List.isEmpty_iff]
        rw [stands_char hback hopen', stands_char hback hopen]
        simp only [ih (.refl hcs)]
      · obtain ⟨-, rfl⟩ := not_or.mp hopen |>.imp not_not.mp not_not.mp
        rfl

/-- A part of the pattern of a regular expression. -/
inductive PatternPart
  /-- A character that may have a meaning of its own. -/
  | char (c : Char)
  /-- A character behind a backslash. -/
  | escape (c : Char)
  /-- A unit that stands for itself. -/
  | unit (n : Nat)
  deriving DecidableEq, Repr

/-- The parts of a pattern, behind digits of an escape that were read. What is not plain has no
meaning of its own, so it is as good as the escapes of its units. -/
def patternParts : Nat → List Char → List PatternPart
  | _, [] => []
  | k + 1, _ :: cs => patternParts k cs
  | 0, '\\' :: c :: cs =>
      match if c == 'u' then unit? cs else none with
      | some (n, _) => .unit n :: patternParts 4 cs
      | none => .escape c :: patternParts 0 cs
  | 0, c :: cs =>
      (if isPlain c then [.char c] else (units c).map .unit) ++ patternParts 0 cs

theorem patternParts_drop (k : Nat) (cs : List Char) :
    patternParts k cs = patternParts 0 (cs.drop k) := by
  induction k generalizing cs with
  | zero => rfl
  | succ k ih =>
      cases cs with
      | nil => rfl
      | cons c cs => exact ih cs

theorem eq_drop_of_unit? {n : Nat} (h : unit? cs = some (n, rest)) : rest = cs.drop 4 := by
  rw [unit?_eq] at h
  split at h
  · obtain ⟨m, -, he⟩ := Option.map_eq_some_iff.mp h
    exact (Prod.mk.inj he).2.symm
  · cases h

theorem patternParts_unit {n : Nat} (h : unit? cs = some (n, rest)) :
    patternParts 0 ('\\' :: 'u' :: cs) = .unit n :: patternParts 0 rest := by
  have hparts : patternParts 0 ('\\' :: 'u' :: cs) = match unit? cs with
      | some (n, _) => .unit n :: patternParts 4 cs
      | none => .escape 'u' :: patternParts 0 cs := rfl
  rw [hparts, h, eq_drop_of_unit? h, patternParts_drop 4]

theorem patternParts_escape (h : c = 'u' → unit? cs = none) :
    patternParts 0 ('\\' :: c :: cs) = .escape c :: patternParts 0 cs := by
  rw [patternParts]
  by_cases hc : c = 'u'
  · subst hc
    rw [h rfl]
    rfl
  · rw [if_neg (by simpa using hc)]

theorem patternParts_char (hc : c ≠ '\\') (cs : List Char) : patternParts 0 (c :: cs) =
    (if isPlain c then [.char c] else (units c).map .unit) ++ patternParts 0 cs := by
  rw [patternParts]
  exact fun d ds he _ => hc he

theorem patternParts_foreign (hc : isPlain c = false) (cs : List Char) :
    patternParts 0 (plain (c :: cs)) = (units c).map .unit ++ patternParts 0 (plain cs) := by
  have hescaped := escaped_plain_cons hc cs
  generalize plain (c :: cs) = w at hescaped
  cases hescaped with
  | unit hsmall hn =>
      rw [patternParts_unit hn, units, if_pos hsmall]
      rfl
  | @pair ds es high low hlarge hhigh hlow hpair hn hm =>
      have hunits : units c = [high, low] := by
        show pointUnits c.toNat = _
        rw [← hpair, pointUnits_pairValue hhigh hlow]
      rw [patternParts_unit hn, patternParts_unit hm, hunits]
      rfl

theorem patternParts_plain (h : isSteady false cs = true) :
    patternParts 0 (plain cs) = patternParts 0 cs := by
  induction cs, h using isSteady_induction with
  | nil => rfl
  | backslash cs h ih =>
      cases cs with
      | nil => rw [plain_eq_self (by decide)]
      | cons d ds =>
          obtain ⟨hd, hds⟩ := isSteady_escape h
          have hunit := agrees_unit? hds
          have hshort : ∀ {rest : List Char}, Behind ds rest →
              patternParts 0 (plain rest) = patternParts 0 rest := fun hrest => ih (hrest.cons d)
          rw [plain_cons (by decide), plain_cons hd]
          cases hu : unit? ds with
          | none =>
              rw [hu] at hunit
              rw [patternParts_escape fun _ => hunit.1, patternParts_escape fun _ => hu,
                hshort (.refl hds)]
          | some z =>
              by_cases hdu : d = 'u'
              · subst hdu
                obtain ⟨hunit, hz⟩ := hunit
                rw [hu] at hunit
                rw [patternParts_unit hunit, patternParts_unit hu]
                exact congrArg _ (hshort (hz z hu))
              · rw [patternParts_escape fun he => absurd he hdu,
                  patternParts_escape fun he => absurd he hdu, hshort (.refl hds)]
  | foreign c cs h hcs hback hc ih =>
      rw [patternParts_foreign hc, patternParts_char hback, ih, hc]
      rfl
  | char c cs h hcs hback hc ih =>
      rw [plain_cons hc, patternParts_char hback, patternParts_char hback, ih (.refl hcs)]

/-- The raw texts have the same value, and are one text where all of it is plain. -/
structure SameValue (raw raw' : String) : Prop where
  hasValue : hasValue raw'.toList = hasValue raw.toList
  stands (ns : List Nat) : Stands (raw'.toList ++ ['`']) ns ↔ Stands (raw.toList ++ ['`']) ns
  plain : (∀ c ∈ raw.toList, isPlain c = true) → raw' = raw

/-- The patterns have the same parts, and are one pattern where all of it is plain. -/
structure SamePattern (pattern pattern' : String) : Prop where
  parts : patternParts 0 pattern'.toList = patternParts 0 pattern.toList
  plain : (∀ c ∈ pattern.toList, isPlain c = true) → pattern' = pattern

/-- The directives have the same value, and both or none of them ask for strictness. -/
structure SameDirective (raw raw' : String) : Prop extends SameValue raw raw' where
  strict : raw' = "use strict" ↔ raw = "use strict"

/-- The nodes are the same up to how raw texts are written. -/
inductive SameForm : Form → Form → Prop
  | same (f : Form) : SameForm f f
  | regex {p p' : String} (flags : String) (h : SamePattern p p') :
      SameForm (.regex p flags) (.regex p' flags)
  | template {chunks chunks' : List String} (h : List.Forall₂ SameValue chunks chunks') :
      SameForm (.template chunks) (.template chunks')
  | body {ds ds' : List String} (h : List.Forall₂ SameDirective ds ds') :
      SameForm (.body ds) (.body ds')
  | program {line line' : Option String} {ds ds' : List String}
      (hline : line'.isSome = line.isSome) (h : List.Forall₂ SameDirective ds ds') :
      SameForm (.program line ds) (.program line' ds')

/-- The trees are the same program: names, strings and numbers are the same everywhere, and so is
what raw texts stand for. -/
inductive SameProgram : Tree → Tree → Prop
  | node {f f' : Form} {ps ps' : List Tree} (hform : SameForm f f')
      (hparts : List.Forall₂ SameProgram ps ps') : SameProgram (.node f ps) (.node f' ps')

theorem isSteady_closed {e : Bool} (h : isSteady e cs = true) :
    isSteady e (cs ++ ['`']) = true := by
  induction cs generalizing e with
  | nil => cases e <;> rfl
  | cons c cs ih =>
      rw [isSteady, Bool.and_eq_true] at h
      rw [List.cons_append, isSteady, h.1, ih h.2]
      rfl

theorem toList_encode (s : String) : (encode s).toList = plain s.toList :=
  String.toList_ofList

theorem respell_plain {raw : String} (h : ∀ c ∈ raw.toList, isPlain c = true) :
    respell raw = raw := by
  unfold respell
  split
  · refine String.toList_injective ?_
    rw [toList_encode, plain_eq_self h]
  · rfl

theorem sameValue_respell (raw : String) : SameValue raw (respell raw) := by
  refine ⟨?_, fun ns => ?_, respell_plain⟩
  · unfold respell
    split
    · rename_i h
      rw [toList_encode, hasValue_plain h]
    · rfl
  · unfold respell
    split
    · rename_i h
      have hclosed := stands_plain (isSteady_closed h) ns
      rwa [plain_append, show plain ['`'] = ['`'] from rfl, ← toList_encode] at hclosed
    · rfl

theorem samePattern_respell (pattern : String) : SamePattern pattern (respell pattern) := by
  refine ⟨?_, respell_plain⟩
  unfold respell
  split
  · rename_i h
    rw [toList_encode, patternParts_plain h]
  · rfl

theorem sameDirective_respell (raw : String) : SameDirective raw (respell raw) := by
  refine ⟨sameValue_respell raw, fun h => ?_, fun h => ?_⟩
  · by_cases hall : ∀ c ∈ raw.toList, isPlain c = true
    · rwa [respell_plain hall] at h
    · obtain ⟨c, hmem, hc⟩ : ∃ c ∈ raw.toList, isPlain c = false := by simpa using hall
      have hback := backslash_mem_plain hmem hc
      unfold respell at h
      split at h
      · rw [← toList_encode, h] at hback
        exact absurd hback (by decide)
      · rw [h] at hmem
        exact absurd hc (by revert c; decide)
  · rw [h]
    exact respell_plain (by decide)

theorem sameForm_respelled (f : Form) : SameForm f f.respelled := by
  cases f with
  | regex pattern flags => exact .regex flags (samePattern_respell pattern)
  | template chunks => exact .template (forall₂_map fun c _ => sameValue_respell c)
  | body ds => exact .body (forall₂_map fun d _ => sameDirective_respell d)
  | program line ds =>
      exact .program (Option.isSome_map ..) (forall₂_map fun d _ => sameDirective_respell d)
  | _ => exact .same _

mutual

theorem sameProgram_respelled (t : Tree) : SameProgram t t.respelled := by
  match t with
  | .node f ps => exact .node (sameForm_respelled f) (samePrograms_respelled ps)
termination_by structural t

theorem samePrograms_respelled (ts : List Tree) :
    List.Forall₂ SameProgram ts (Tree.respelledAll ts) := by
  match ts with
  | [] => exact .nil
  | t :: ts => exact .cons (sameProgram_respelled t) (samePrograms_respelled ts)
termination_by structural ts

end

/-- The plain form of a steady script is a script, and the same program: its names, strings and
numbers are the same, its templates and directives have the same values, and its regular expressions
have patterns of the same parts. Raw texts that are plain stay as they are. -/
theorem encode_keeps_program {code : String} {t : Tree}
    (hsteady : isSteady false code.toList = true) (hparse : parse? code = some t) :
    ∃ t', parse? (encode code) = some t' ∧ SameProgram t t' := by
  rw [parse?_encode hsteady, hparse]
  exact ⟨t.respelled, rfl, sameProgram_respelled t⟩

theorem encode_keeps_program_accented :
    isSteady false "var é = `ü${é}` + /[à-ö]/g.test('ß');".toList = true ∧
      ∃ t t', parse? "var é = `ü${é}` + /[à-ö]/g.test('ß');" = some t ∧
        parse? (encode "var é = `ü${é}` + /[à-ö]/g.test('ß');") = some t' ∧ SameProgram t t' := by
  have hsteady : isSteady false "var é = `ü${é}` + /[à-ö]/g.test('ß');".toList = true := by
    decide +kernel
  obtain ⟨t, ht⟩ : ∃ t, parse? "var é = `ü${é}` + /[à-ö]/g.test('ß');" = some t :=
    Option.isSome_iff_exists.mp (by decide +kernel)
  obtain ⟨t', ht', hsame⟩ := encode_keeps_program hsteady ht
  exact ⟨hsteady, t, t', ht, ht', hsame⟩

/-- A name with a character of two units is no name in plain form: a script that has one is printed
as a script, but the plain form of that is none. -/
theorem encode_breaks_astral_name : ∃ t, parse? "var 𝒜 = 1;" = some t ∧
    ∀ style, (parse? (print style t)).isSome = true ∧ parse? (encode (print style t)) = none := by
  obtain ⟨t, ht⟩ : ∃ t, parse? "var 𝒜 = 1;" = some t :=
    Option.isSome_iff_exists.mp (by decide +kernel)
  have hprinted : ∀ style, ((parse? "var 𝒜 = 1;").map fun t => (parse? (print style t)).isSome &&
      (parse? (encode (print style t))).isNone) = some true := by
    rintro (_ | _) <;> decide +kernel
  refine ⟨t, ht, fun style => ?_⟩
  have hstyle := hprinted style
  rw [ht, Option.map_some, Option.some.injEq, Bool.and_eq_true, Option.isNone_iff_eq_none] at hstyle
  exact hstyle

end DefineBundle.Script.PlainForm
