import DefineBundle.Proofs.Script.Punctuation
import DefineBundle.Text.Identifier

/-!
# What a made-up name is made of

Every character that may open a script name may also continue one, so whatever text a name is made
for, it can be put behind an underscore. A text of such characters is read back as one name.
-/
namespace DefineBundle.Text

/-- Whether each member of the first set is one of the second. Both lists are walked along at once,
the flags telling whether the stretch that has been reached belongs to either set. -/
def CharSet.within : Nat → Bool → List Nat → Bool → List Nat → Bool
  | 0, _, _, _, _ => false
  | _ + 1, a, [], b, [] => !a || b
  | n + 1, a, _ :: xs, b, [] => (!a || b) && within n (!a) xs b []
  | n + 1, a, [], b, _ :: ys => (!a || b) && within n a [] (!b) ys
  | n + 1, a, x :: xs, b, y :: ys =>
      (!a || b) &&
        if x < y then within n (!a) xs b (y :: ys)
        else if y < x then within n a (x :: xs) (!b) ys
        else within n (!a) xs (!b) ys

theorem CharSet.crosses_of_within {n c : Nat} {a b : Bool} {xs ys : List Nat}
    (h : within n a xs b ys = true) (hc : crosses c a xs = true) : crosses c b ys = true := by
  fun_induction within n a xs b ys with
  | case1 => cases h
  | case2 =>
      obtain rfl : _ = true := hc
      simpa [crosses] using h
  | case3 n a x xs b ih =>
      obtain ⟨hnow, hlater⟩ := Bool.and_eq_true_iff.mp h
      rw [crosses] at hc
      split at hc
      · exact ih hlater hc
      · subst hc
        simpa [crosses] using hnow
  | case4 n a b y ys ih =>
      obtain ⟨hnow, hlater⟩ := Bool.and_eq_true_iff.mp h
      obtain rfl : a = true := hc
      rw [crosses]
      split
      · exact ih hlater rfl
      · simpa using hnow
  | case5 n a x xs b y ys ihfirst ihsecond ihboth =>
      obtain ⟨hnow, hlater⟩ := Bool.and_eq_true_iff.mp h
      rw [crosses] at hc
      split at hlater
      · split at hc
        · exact ihfirst hlater hc
        · subst hc
          rw [crosses, if_neg (by omega)]
          simpa using hnow
      · split at hlater
        · rw [crosses]
          split
          · exact ihsecond hlater (by rw [crosses]; exact hc)
          · rw [if_neg (by omega)] at hc
            subst hc
            simpa using hnow
        · obtain rfl : x = y := by omega
          rw [crosses]
          split at hc
          · rw [if_pos ‹_›]
            exact ihboth hlater hc
          · rw [if_neg ‹_›]
            subst hc
            simpa using hnow

theorem idContinue_of_idStart {c : Char} (h : idStart.contains c = true) :
    idContinue.contains c = true := by
  have hwithin : CharSet.within (idStart.boundaries.length + idContinue.boundaries.length + 1)
      false idStart.boundaries false idContinue.boundaries = true := by decide +kernel
  exact CharSet.crosses_of_within hwithin h

theorem isNamePart_of_isNameStart {c : Char} (h : isNameStart c = true) : isNamePart c = true := by
  unfold isNameStart at h
  unfold isNamePart
  split at h
  · rw [if_pos ‹_›, Char.isAlphanum]
    simp only [Bool.or_eq_true] at h ⊢
    exact Or.imp_left (Or.imp_left .inl) h
  · rw [if_neg ‹_›]
    exact idContinue_of_idStart h

theorem isNamePart_namePart (c : Char) : isNamePart (namePart c) = true := by
  unfold namePart
  split
  · assumption
  · rfl

/-- A name that was made up consists of characters that continue a name. -/
theorem all_isNamePart_legitimize (cs : List Char) : (legitimize cs).all isNamePart = true := by
  cases cs with
  | nil => rfl
  | cons c cs =>
      have htail : (cs.map namePart).all isNamePart = true :=
        List.all_eq_true.mpr fun x hx => by
          obtain ⟨y, -, rfl⟩ := List.mem_map.mp hx
          exact isNamePart_namePart y
      rw [legitimize, List.all_append, htail, Bool.and_true, nameStart]
      split
      · simp [isNamePart_of_isNameStart ‹_›]
      · split
        · simp only [List.all_cons, List.all_nil, Bool.and_true, Bool.and_eq_true]
          exact ⟨rfl, ‹_›⟩
        · rfl

theorem isNamePart_of_isDigit {c : Char} (h : c.isDigit = true) : isNamePart c = true := by
  have hbound : c.toNat < 0x80 := by
    simp only [Char.isDigit, Bool.and_eq_true, decide_eq_true_eq, UInt32.le_iff_toNat_le] at h
    exact Nat.lt_of_le_of_lt h.2 (by decide)
  simp [isNamePart, hbound, Char.isAlphanum, h]

end DefineBundle.Text

namespace DefineBundle.Script

open DefineBundle.Text

/-- The characters do not go on with a name, and a name may stand in front of them. -/
def EndsName (cs : List Char) : Prop :=
  ∀ c ∈ cs.head?, isNamePart c = false ∧ c ≠ '\\' ∧ Literal.isStray c = false

theorem Literal.nameTail_of_all_isNamePart {cs rest : List Char} (hcs : cs.all isNamePart = true)
    (hrest : EndsName rest) {acc : List Char} (hacc : acc ≠ []) (e : Bool) :
    nameTail fitsName none acc e (cs ++ rest) = some (cs.reverse ++ acc, e, rest) := by
  induction cs generalizing acc with
  | nil =>
      cases rest with
      | nil => rfl
      | cons c rest =>
          obtain ⟨hpart, hslash, hstray⟩ := hrest c rfl
          have hfits : fitsName acc c = false := by simp [fitsName, hacc, hpart]
          rw [List.nil_append, nameTail]
          all_goals simp_all
  | cons c cs ih =>
      obtain ⟨hc, hcs⟩ := Bool.and_eq_true_iff.mp hcs
      have hslash : c ≠ '\\' := by
        rintro rfl
        cases hc
      have hfits : fitsName acc c = true := by simp [fitsName, hacc, hc]
      have hstep : nameTail fitsName none acc e (c :: (cs ++ rest)) =
          nameTail fitsName none (c :: acc) e (cs ++ rest) := by
        rw [nameTail]
        all_goals simp_all
      rw [List.cons_append, hstep, ih hcs (List.cons_ne_nil _ _)]
      simp

/-- An underscore and characters that continue a name are read as one name. -/
theorem Token.next?_underscore {cs rest : List Char} (hcs : cs.all isNamePart = true)
    (hrest : EndsName rest) :
    next? ('_' :: cs ++ rest) = some (.name (String.ofList ('_' :: cs)) false, rest) := by
  have htail : Literal.nameTail Literal.fitsName none [] false ('_' :: (cs ++ rest)) =
      some (cs.reverse ++ ['_'], false, rest) := by
    have hopen : Literal.nameTail Literal.fitsName none [] false ('_' :: (cs ++ rest)) =
        Literal.nameTail Literal.fitsName none ['_'] false (cs ++ rest) := by
      rw [Literal.nameTail]
      all_goals simp [show Literal.fitsName [] '_' = true from rfl]
    rw [hopen, Literal.nameTail_of_all_isNamePart hcs hrest (List.cons_ne_nil _ _)]
  have hname : Literal.name? ('_' :: (cs ++ rest)) =
      some (String.ofList ('_' :: cs), false, rest) := by
    rw [Literal.name?, htail]
    cases hrev : cs.reverse ++ ['_'] with
    | nil => simp at hrev
    | cons c acc =>
        have hback : (c :: acc).reverse = '_' :: cs := by rw [← hrev]; simp
        simp only [hback]
  rw [List.cons_append, next?_eq_nameToken? (by decide) rfl rfl, nameToken?, hname]
  rfl

end DefineBundle.Script
