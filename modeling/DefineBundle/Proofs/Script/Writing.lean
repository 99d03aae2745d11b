import DefineBundle.Proofs.Script.Literals
import DefineBundle.Proofs.Script.Punctuation
import DefineBundle.Proofs.Script.Reading
import DefineBundle.Text.Search

/-!
# Text that is read as given items

A piece of text whose last item is told by its own characters is read the same way whatever follows
it, and pieces can be put one behind the other. Of a fixed text it is found out by a simple reader,
which only knows tokens that do not depend on what follows them.
-/
namespace DefineBundle.Script

open DefineBundle.Text

namespace Literal

/-- A name that has ended does not depend on what follows the character behind it. -/
theorem nameTail_append {accept : List Char → Char → Bool} {code : Option (Option Nat)}
    {acc acc' : List Char} {e e' : Bool} {cs rest : List Char} {c : Char}
    (h : nameTail accept code acc e cs = some (acc', e', c :: rest)) (more : List Char) :
    nameTail accept code acc e (cs ++ more) = some (acc', e', c :: rest ++ more) := by
  fun_induction nameTail accept code acc e cs with
  | case1 _ _ _ _ _ hc haccept ih =>
      simp only [List.cons_append, nameTail, hc, haccept, if_true]
      exact ih h
  | case4 _ _ _ _ _ _ v hv _ hsmall ih =>
      simp only [List.cons_append, nameTail, hv]
      rw [if_pos hsmall]
      exact ih h
  | case8 _ _ _ ih => exact ih h
  | case9 _ _ _ _ _ _ _ _ _ hc haccept ih =>
      simp only [List.cons_append, nameTail, hc, haccept, if_true]
      exact ih h
  | case13 acc e c cs _ _ hc haccept ih =>
      rw [List.cons_append, nameTail, if_neg hc, if_pos haccept]
      · exact ih h
      all_goals simp_all
  | case15 acc e c cs _ _ hc haccept hstray =>
      cases h
      rw [List.cons_append, nameTail, if_neg hc, if_neg haccept, if_neg hstray]
      all_goals simp_all
  | _ => cases h

theorem name?_append {cs rest : List Char} {c : Char} {n : String} {e : Bool}
    (h : name? cs = some (n, e, c :: rest)) (more : List Char) :
    name? (cs ++ more) = some (n, e, c :: rest ++ more) := by
  unfold name? at h
  split at h
  · cases h
  · rename_i htail
    cases h
    rw [name?, nameTail_append htail]
    simp
  · cases h

theorem patternTail_append {inClass : Bool} {acc acc' cs rest : List Char}
    (h : patternTail inClass acc cs = some (acc', rest)) (more : List Char) :
    patternTail inClass acc (cs ++ more) = some (acc', rest ++ more) := by
  fun_induction patternTail inClass acc cs with
  | case2 _ _ _ _ hline ih =>
      rw [List.cons_append, List.cons_append, patternTail, if_neg hline]
      exact ih h
  | case4 _ _ c cs _ hline hclose =>
      cases h
      have hc : c ≠ '\\' := by
        rintro rfl
        simp at hclose
      rw [List.cons_append, patternTail, if_neg hline, if_pos hclose]
      exact fun d ds he => absurd he hc
  | case5 inClass acc c cs hlast hline hclose ih =>
      have hc : c ≠ '\\' := by
        intro he
        -- behind a backslash at the very end nothing is closed
        cases cs with
        | nil => simp [patternTail] at h
        | cons d cs => exact hlast d cs he rfl
      rw [List.cons_append, patternTail, if_neg hline, if_neg hclose]
      · exact ih h
      · exact fun d ds he => absurd he hc
  | _ => cases h

theorem regex?_append {cs rest : List Char} {pattern flags : String} {c : Char}
    (h : regex? cs = some (pattern, flags, c :: rest)) (more : List Char) :
    regex? (cs ++ more) = some (pattern, flags, c :: rest ++ more) := by
  obtain ⟨⟨acc, behind⟩, hpattern, h⟩ := Option.bind_eq_some_iff.mp h
  have hrest : behind.drop (behind.takeWhile isFlagChar).length = c :: rest := by
    dsimp only at h
    split at h
    · cases h
    · exact (Prod.mk.inj (Prod.mk.inj (Option.some.inj h)).2).2
  have hshort : (behind.takeWhile isFlagChar).length < behind.length := by
    have hlength := congrArg List.length hrest
    rw [List.length_drop, List.length_cons] at hlength
    omega
  have hflags : (behind ++ more).takeWhile isFlagChar = behind.takeWhile isFlagChar := by
    rw [List.takeWhile_append, if_neg (by omega)]
  rw [regex?, patternTail_append hpattern, Option.bind_eq_bind, Option.bind_some]
  dsimp only at h ⊢
  rw [hflags, List.drop_append_of_le_length (Nat.le_of_lt hshort), hrest]
  rw [hrest] at h
  split at h
  · cases h
  · rename_i hvalid
    rw [if_neg hvalid]
    cases h
    rfl

end Literal

namespace Token

/-- The token at the start of a text, for punctuation and operators that are complete at the
character behind them. -/
def settledMark? : List Char → Option (Token × List Char)
  | '\x7b' :: cs => some (.mark .braceOpen, cs)
  | '\x7d' :: cs => some (.mark .braceClose, cs)
  | '(' :: cs => some (.mark .parenOpen, cs)
  | ')' :: cs => some (.mark .parenClose, cs)
  | '[' :: cs => some (.mark .bracketOpen, cs)
  | ']' :: cs => some (.mark .bracketClose, cs)
  | ';' :: cs => some (.mark .semicolon, cs)
  | ',' :: cs => some (.mark .comma, cs)
  | ':' :: cs => some (.mark .colon, cs)
  | '=' :: ' ' :: cs => some (.assign none, ' ' :: cs)
  | '=' :: '=' :: '=' :: cs => some (.operator .same, cs)
  | '!' :: '=' :: '=' :: cs => some (.operator .notSame, cs)
  | '!' :: '=' :: ' ' :: cs => some (.operator .notEqual, ' ' :: cs)
  | '+' :: '+' :: cs => some (.update .increment, cs)
  | '+' :: '=' :: cs => some (.assign (some .add), cs)
  | '+' :: ' ' :: cs => some (.operator .add, ' ' :: cs)
  | '-' :: ' ' :: cs => some (.operator .sub, ' ' :: cs)
  | '-' :: '1' :: cs => some (.operator .sub, '1' :: cs)
  | '<' :: ' ' :: cs => some (.operator .less, ' ' :: cs)
  | '.' :: c :: cs => if c.isAlpha then some (.mark .dot, c :: cs) else none
  | '!' :: c :: cs => if c.isAlpha then some (.not, c :: cs) else none
  | _ => none

theorem ne_of_isAlpha {c d : Char} (hc : c.isAlpha = true) (hd : d.isAlpha = false) : c ≠ d := by
  rintro rfl
  rw [hd] at hc
  cases hc

theorem isDigit_of_isAlpha {c : Char} (hc : c.isAlpha = true) : c.isDigit = false := by
  have hletter : (decide ('A'.val ≤ c.val ∧ c.val ≤ 'Z'.val) ||
      ('a'.val ≤ c.val && c.val ≤ 'z'.val)) = true := hc
  simp only [Bool.or_eq_true, Bool.and_eq_true, decide_eq_true_eq,
    UInt32.le_iff_toNat_le] at hletter
  simp only [Char.isDigit, Bool.and_eq_false_iff, decide_eq_false_iff_not, ge_iff_le,
    UInt32.le_iff_toNat_le]
  have hA : 'A'.val.toNat = 65 := rfl
  have ha : 'a'.val.toNat = 97 := rfl
  have hnine : '9'.val.toNat = 57 := rfl
  omega

theorem startsMark_of_isAlpha {c : Char} (hc : c.isAlpha = true) : startsMark c = false := by
  rw [Bool.eq_false_iff]
  intro hm
  have hnot : (!c.isAlpha) = true := of_startsMark (p := fun d => !d.isAlpha) (by decide) hm
  rw [hc] at hnot
  cases hnot

theorem next?_of_isAlpha {c : Char} (hc : c.isAlpha = true) (cs : List Char) :
    next? (c :: cs) = nameToken? (c :: cs) := by
  have hne : ∀ {d : Char}, d.isAlpha = false → c ≠ d := ne_of_isAlpha hc
  exact next?_eq_nameToken? ⟨hne rfl, hne rfl, hne rfl⟩ (isDigit_of_isAlpha hc)
    (startsMark_of_isAlpha hc) cs

theorem next?_of_settledMark? {w rest : List Char} {t : Token}
    (h : settledMark? w = some (t, rest)) (more : List Char) :
    next? (w ++ more) = some (t, rest ++ more) := by
  unfold settledMark? at h
  split at h
  case h_22 => cases h
  case h_20 c cs =>
    split at h
    · rename_i hc
      cases h
      simp only [List.cons_append, next?, isDigit_of_isAlpha hc, Bool.false_eq_true, if_false]
      rw [punctuation?]
      exact fun ds he => absurd (List.cons.inj he).1 (ne_of_isAlpha hc (by decide))
    · cases h
  case h_21 c cs _ _ =>
    split at h
    · rename_i hc
      cases h
      have hne : c ≠ '=' := ne_of_isAlpha hc (by decide)
      have hnot : punctuation? ('!' :: c :: (cs ++ more)) = some (.not, c :: (cs ++ more)) := by
        rw [punctuation?]
        · exact fun ds he => absurd (List.cons.inj he).1 hne
        · exact fun ds he => absurd (List.cons.inj he).1 hne
      simp only [List.cons_append, next?, hnot]
      rfl
    · cases h
  all_goals
    cases h
    rfl

/-- Whether a digit is a whole number when it stands in front of a character. -/
def isNumberBefore (digit c : Char) : Bool :=
  ['0', '1'].contains digit && [' ', ';', ',', ')', ']'].contains c

theorem next?_of_isNumberBefore {digit c : Char} (h : isNumberBefore digit c = true)
    (cs : List Char) :
    next? (digit :: c :: cs) = some (.number (Literal.wholeIn 10 [digit]), c :: cs) := by
  simp only [isNumberBefore, Bool.and_eq_true, List.contains_iff_mem, List.mem_cons,
    List.not_mem_nil, or_false] at h
  rcases h with ⟨rfl | rfl, rfl | rfl | rfl | rfl | rfl⟩ <;> rfl

/-- The token at the start of a text, for the tokens that are the same whatever follows the text. -/
def settled? : List Char → Option (Token × List Char)
  | [] => none
  | c :: cs =>
      if c == '\'' || c == '"' then
        let raw := Literal.written c cs
        (Literal.content? c raw).bind fun v => (after? (raw ++ [c]) cs).map fun rest =>
          (.string (String.ofList v) false (String.ofList raw), rest)
      else if c.isAlpha then
        match Literal.name? (c :: cs) with
        | some (n, e, d :: rest) => some (.name n e, d :: rest)
        | _ => none
      else match cs with
        | d :: ds =>
            if isNumberBefore c d then some (.number (Literal.wholeIn 10 [c]), d :: ds)
            else settledMark? (c :: d :: ds)
        | [] => settledMark? [c]

theorem next?_of_settled? {w rest : List Char} {t : Token} (h : settled? w = some (t, rest))
    (more : List Char) : next? (w ++ more) = some (t, rest ++ more) := by
  cases w with
  | nil => cases h
  | cons c cs =>
      rw [settled?.eq_def] at h
      dsimp only at h
      split at h
      · rename_i hquote
        rw [Bool.or_eq_true, beq_iff_eq, beq_iff_eq] at hquote
        obtain ⟨v, hv, h⟩ := Option.bind_eq_some_iff.mp h
        obtain ⟨rest, hrest, he⟩ := Option.map_eq_some_iff.mp h
        cases he
        have hcs := after?_eq_some_iff.mp hrest
        have hstring := Literal.string?_content hquote hv (rest ++ more)
        generalize Literal.written c cs = raw at hcs hstring ⊢
        rw [hcs]
        rcases hquote with rfl | rfl <;> simpa [next?] using hstring
      · split at h
        · rename_i hc
          split at h
          · rename_i n e d ds hname
            cases h
            have hmore := Literal.name?_append hname more
            rw [List.cons_append] at hmore
            rw [List.cons_append, next?_of_isAlpha hc, nameToken?, hmore]
            rfl
          · cases h
        · split at h
          · split at h
            · rename_i hnumber
              cases h
              exact next?_of_isNumberBefore hnumber _
            · exact next?_of_settledMark? h more
          · exact next?_of_settledMark? h more

end Token

/-- Whether a token comes first in the text, and not space or a comment, whatever follows it. -/
def startsToken : List Char → Bool
  | [] => false
  | [c] => !(isLineEnd c || Trivia.isSpace c || ['/', '<', '-'].contains c)
  | c :: d :: _ => !(isLineEnd c || Trivia.isSpace c || c == '/' && (d == '/' || d == '*') ||
      c == '<' && d == '!' || c == '-' && d == '-')

theorem skip_of_startsToken {w : List Char} (h : startsToken w = true) (g : Gap)
    (more : List Char) : Trivia.skip .between g (w ++ more) = some (g, w ++ more) := by
  match w, h with
  | [c], h =>
      simp only [startsToken, Bool.not_eq_true', Bool.or_eq_false_iff] at h
      obtain ⟨⟨hline, hspace⟩, hmark⟩ := h
      have hslash : c ≠ '/' := fun he => by simp [he] at hmark
      have hless : c ≠ '<' := fun he => by simp [he] at hmark
      have hminus : c ≠ '-' := fun he => by simp [he] at hmark
      rw [List.singleton_append, Trivia.skip, hline, hspace]
      · simp [Ne.symm hminus]
      all_goals simp [hslash, hless]
  | c :: d :: w, h =>
      simp only [startsToken, Bool.not_eq_true', Bool.or_eq_false_iff] at h
      obtain ⟨⟨⟨⟨hline, hspace⟩, hslash⟩, hless⟩, hminus⟩ := h
      rw [List.cons_append, List.cons_append, Trivia.skip, hline, hspace]
      · have harrow : ['-', '-', '>'].isPrefixOf (c :: d :: (w ++ more)) = false := by
          simp only [List.isPrefixOf, Bool.and_eq_false_iff, beq_eq_false_iff_ne] at hminus ⊢
          exact hminus.imp Ne.symm fun hd => .inl (Ne.symm hd)
        rw [harrow, Bool.and_false]
        rfl
      all_goals
        intros
        simp_all

namespace Item

/-- Whatever follows the text, it begins with the item and goes on with the rest. -/
def Leads (i : Item) (w rest : List Char) : Prop :=
  startsToken w = true ∧ ∀ more, match i with
    | token t => Token.next? (w ++ more) = some (t, rest ++ more)
    | string v l => ∃ raw, Token.next? (w ++ more) = some (.string v l raw, rest ++ more)
    | regex p f => (∃ behind, Token.next? (w ++ more) = some (.operator .div, behind)) ∧
        Literal.regex? ((w ++ more).drop 1) = some (p, f, rest ++ more)
    | glue => False

theorem Leads.exists_passes {i : Item} {w rest more : List Char} {c d : Cursor}
    (h : i.Leads w rest) (hd : Parser.moved c false (rest ++ more) = some d) (fresh : Bool) :
    ∃ e, Parser.moved c fresh (w ++ more) = some e ∧ i.Passes e d ∧ e.gap.isFresh = fresh := by
  obtain ⟨hstart, hread⟩ := h
  have hread := hread more
  have hmoved : ∀ {t : Token} {behind : List Char}, Token.next? (w ++ more) = some (t, behind) →
      ∃ e, Parser.moved c fresh (w ++ more) = some e ∧ e.IsQuiet ∧ e.token = t ∧
        e.here = w ++ more ∧ e.rest = behind ∧ e.gap.isFresh = fresh ∧
        Parser.moved e false (rest ++ more) = some d := by
    intro t behind hnext
    have he : Parser.moved c fresh (w ++ more) = some { c with
        token := t, gap := ⟨fresh, false, false⟩, here := w ++ more, rest := behind } := by
      rw [Parser.moved, skip_of_startsToken hstart, Option.bind_eq_bind, Option.bind_some]
      dsimp only
      rw [hnext]
      rfl
    refine ⟨_, he, ⟨rfl, rfl⟩, rfl, rfl, rfl, rfl, ?_⟩
    rw [Parser.moved_eq_of_shares (Parser.shares_of_moved he), hd]
  cases i with
  | token t =>
      obtain ⟨e, he, hquiet, htoken, -, hrest, hfresh, hd⟩ := hmoved hread
      exact ⟨e, he, ⟨hquiet, htoken, by rw [hrest, hd]⟩, hfresh⟩
  | string v l =>
      obtain ⟨raw, hread⟩ := hread
      obtain ⟨e, he, hquiet, htoken, -, hrest, hfresh, hd⟩ := hmoved hread
      exact ⟨e, he, ⟨hquiet, ⟨raw, htoken⟩, by rw [hrest, hd]⟩, hfresh⟩
  | regex p f =>
      obtain ⟨⟨behind, hread⟩, hregex⟩ := hread
      obtain ⟨e, he, hquiet, htoken, hhere, -, hfresh, hd⟩ := hmoved hread
      exact ⟨e, he, ⟨hquiet, htoken, _, by rw [hhere, hregex], hd⟩, hfresh⟩
  | glue => exact hread.elim

/-- The rest of a text that begins with an item, if it does so whatever follows the text. -/
def after? (i : Item) (w : List Char) : Option (List Char) :=
  if startsToken w then
    match i, w with
    | token t, w => (Token.settled? w).bind fun r => if r.1 = t then some r.2 else none
    | string v l, w =>
        match Token.settled? w with
        | some (.string v' l' _, rest) => if v' = v ∧ l' = l then some rest else none
        | _ => none
    | regex p f, '/' :: c :: cs =>
        match Literal.regex? (c :: cs) with
        | some (p', f', d :: rest) =>
            if c ≠ '=' ∧ p' = p ∧ f' = f then some (d :: rest) else none
        | _ => none
    | _, _ => none
  else none

theorem leads_of_after? {i : Item} {w rest : List Char} (h : i.after? w = some rest) :
    i.Leads w rest := by
  unfold after? at h
  split at h
  · rename_i hstart
    refine ⟨hstart, fun more => ?_⟩
    split at h
    · obtain ⟨⟨u, rest⟩, hsettled, h⟩ := Option.bind_eq_some_iff.mp h
      split at h
      · rename_i ht
        cases h
        exact ht ▸ Token.next?_of_settled? hsettled more
      · cases h
    · split at h
      · rename_i raw _ hsettled
        split at h
        · rename_i hvalue
          cases h
          obtain ⟨rfl, rfl⟩ := hvalue
          exact ⟨raw, Token.next?_of_settled? hsettled more⟩
        · cases h
      · cases h
    · rename_i p f c cs
      split at h
      · rename_i hregex
        split at h
        · rename_i hvalue
          cases h
          obtain ⟨hc, rfl, rfl⟩ := hvalue
          refine ⟨⟨c :: (cs ++ more), ?_⟩, Literal.regex?_append hregex more⟩
          have hdiv : Token.punctuation? ('/' :: c :: (cs ++ more)) =
              some (.operator .div, c :: (cs ++ more)) := by
            rw [Token.punctuation?]
            exact fun ds he => hc (List.cons.inj he).1
          simp only [List.cons_append, Token.next?, hdiv]
          rfl
        · cases h
      · cases h
    · cases h
  · cases h

end Item

/-- Wherever it stands and whatever follows it, the text is read as these items. -/
def Writes (w : List Char) (is : List Item) : Prop :=
  is.length ≤ w.length ∧ ∀ c more d, Parser.moved c false more = some d →
    ∀ fresh, ∃ e, Parser.moved c fresh (w ++ more) = some e ∧ Along is e d

/-- Space that may stand between two items. -/
def isPad (c : Char) : Bool :=
  c == ' ' || c == '\t' || c == '\n'

theorem exists_moved_pad (pad : List Char) (h : pad.all isPad = true) (c : Cursor) (fresh : Bool)
    (cs : List Char) : ∃ fresh', Parser.moved c fresh (pad ++ cs) = Parser.moved c fresh' cs ∧
      ('\n' ∉ pad → fresh' = fresh) := by
  induction pad generalizing fresh with
  | nil => exact ⟨fresh, rfl, fun _ => rfl⟩
  | cons b pad ih =>
      rw [List.all_cons, Bool.and_eq_true] at h
      simp only [isPad, Bool.or_eq_true, beq_iff_eq] at h
      obtain ⟨(rfl | rfl) | rfl, hpad⟩ := h
      · obtain ⟨fresh', hmoved, hfresh⟩ := ih hpad fresh
        exact ⟨fresh', hmoved, fun hnone => hfresh (fun hmem => hnone (by simp [hmem]))⟩
      · obtain ⟨fresh', hmoved, hfresh⟩ := ih hpad fresh
        exact ⟨fresh', hmoved, fun hnone => hfresh (fun hmem => hnone (by simp [hmem]))⟩
      · obtain ⟨fresh', hmoved, -⟩ := ih hpad true
        exact ⟨fresh', hmoved, fun hnone => absurd (by simp) hnone⟩

namespace Writes

variable {v w : List Char} {is js : List Item}

theorem append (hv : Writes v is) (hw : Writes w js) : Writes (v ++ w) (is ++ js) := by
  refine ⟨by simpa using Nat.add_le_add hv.1 hw.1, fun c more d hd fresh => ?_⟩
  obtain ⟨m, hm, hjs⟩ := hw.2 c more d hd false
  obtain ⟨e, he, his⟩ := hv.2 c (w ++ more) m hm fresh
  exact ⟨e, by rw [List.append_assoc, he], along_append.mpr ⟨m, his, hjs⟩⟩

theorem pad {pad : List Char} (h : Writes w is) (hpad : pad.all isPad = true) :
    Writes (pad ++ w) is := by
  refine ⟨by rw [List.length_append]; exact Nat.le_add_left_of_le h.1, fun c more d hd fresh => ?_⟩
  obtain ⟨fresh', hmoved, -⟩ := exists_moved_pad pad hpad c fresh (w ++ more)
  obtain ⟨e, he, his⟩ := h.2 c more d hd fresh'
  exact ⟨e, by rw [List.append_assoc, hmoved, he], his⟩

theorem of_leads {i : Item} (h : i.Leads w []) : Writes w [i] := by
  refine ⟨?_, fun c more d hd fresh => ?_⟩
  · cases w with
    | nil => cases h.1
    | cons c w => simp
  · obtain ⟨e, he, hpasses, -⟩ := h.exists_passes hd fresh
    exact ⟨e, he, along_singleton.mpr hpasses⟩

end Writes

theorem writes_string {quote : Char} {w v : List Char} (hquote : quote = '\'' ∨ quote = '"')
    (h : Literal.content? quote w = some v) :
    Writes (quote :: (w ++ [quote])) [.string (String.ofList v) false] := by
  refine .of_leads ⟨?_, fun more => ⟨String.ofList w, ?_⟩⟩
  · rcases hquote with rfl | rfl <;> cases w <;> simp [startsToken, isLineEnd, Trivia.isSpace]
  · have hstring := Literal.string?_content hquote h more
    rcases hquote with rfl | rfl <;> simpa [Token.next?] using hstring

/-- Whether the text consists of the items, by tokens that are the same whatever follows them;
`glued` when no line may end in front of the first. -/
def readsAs : Bool → List Item → List Char → Bool
  | glued, [], w => !glued && w.isEmpty
  | _, .glue :: is, w => readsAs true is w
  | glued, i :: is, w =>
      !(glued && (w.takeWhile isPad).contains '\n') &&
        ((i.after? (w.dropWhile isPad)).any fun rest => readsAs false is rest)

theorem exists_moved_of_readsAs {glued fresh : Bool} {is : List Item} {w : List Char}
    (h : readsAs glued is w = true) {c d : Cursor} {more : List Char}
    (hd : Parser.moved c false more = some d)
    (hfresh : is.head?.all (· = .glue) = true → fresh = false) :
    ∃ e, Parser.moved c fresh (w ++ more) = some e ∧ Along is e d ∧
      (glued = true → fresh = false → e.gap.isFresh = false) := by
  fun_induction readsAs glued is w generalizing fresh with
  | case1 glued w =>
      rw [Bool.and_eq_true, Bool.not_eq_true', List.isEmpty_iff] at h
      obtain ⟨rfl, rfl⟩ := h
      rw [hfresh rfl]
      exact ⟨d, hd, rfl, fun he => by cases he⟩
  | case2 glued is w ih =>
      obtain rfl := hfresh (by simp)
      obtain ⟨e, he, his, hglued⟩ := ih h (fun _ => rfl)
      exact ⟨e, he, ⟨e, ⟨hglued rfl rfl, rfl⟩, his⟩, fun _ => hglued rfl⟩
  | case3 glued i is w hi ih =>
      simp only [Bool.and_eq_true, Option.any_eq_true] at h
      obtain ⟨hpad, rest, hrest, h⟩ := h
      obtain ⟨m, hm, his, -⟩ := ih rest h (fun _ => rfl)
      obtain ⟨fresh', hmoved, hfresh'⟩ := exists_moved_pad (w.takeWhile isPad)
        List.all_takeWhile c fresh (w.dropWhile isPad ++ more)
      obtain ⟨e, he, hpasses, hgap⟩ := (Item.leads_of_after? hrest).exists_passes hm fresh'
      refine ⟨e, ?_, ⟨m, hpasses, his⟩, ?_⟩
      · rw [← List.append_assoc, List.takeWhile_append_dropWhile] at hmoved
        rw [hmoved, he]
      · rintro rfl rfl
        rw [hgap]
        exact hfresh' (by simpa using hpad)

/-- A text that is found to consist of given items is read as these items anywhere. -/
theorem writes_of_readsAs {i : Item} {is : List Item} {w : List Char}
    (h : (readsAs false (i :: is) w && decide ((i :: is).length ≤ w.length)) = true)
    (hi : i ≠ .glue) : Writes w (i :: is) := by
  rw [Bool.and_eq_true, decide_eq_true_eq] at h
  refine ⟨h.2, fun c more d hd fresh => ?_⟩
  have hglue : (i :: is).head?.all (· = .glue) = true → fresh = false := by simp [hi]
  obtain ⟨e, he, his, -⟩ := exists_moved_of_readsAs h.1 hd hglue
  exact ⟨e, he, his⟩

end DefineBundle.Script
