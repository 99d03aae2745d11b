import DefineBundle.Text.Blank
import DefineBundle.Text.Search

/-!
# Laws of search and replacement

The first occurrence of a word is there when any is; the last one does not depend on what stands in
front. Around a character that a word does not hold, text is replaced piece by piece.
-/
namespace DefineBundle.Text

/-- Where the first character of a word is missing, there is no such word. -/
theorem splitLast?_eq_none {c : Char} {word cs : List Char} (h : c ∉ cs) :
    splitLast? (c :: word) cs = none := by
  induction cs with
  | nil => rfl
  | cons d cs ih =>
      have hne : c ≠ d := fun he => h (by simp [he])
      simp [splitLast?, ih fun hm => h (List.mem_cons_of_mem _ hm), after?, hne]

theorem splitLast?_append {word rest before after : List Char}
    (h : splitLast? word rest = some (before, after)) (cs : List Char) :
    splitLast? word (cs ++ rest) = some (cs ++ before, after) := by
  induction cs with
  | nil => exact h
  | cons c cs ih => simp [splitLast?, ih]

theorem eq_of_splitLast? {word cs before after : List Char}
    (h : splitLast? word cs = some (before, after)) : cs = before ++ (word ++ after) := by
  induction cs generalizing before with
  | nil =>
      unfold splitLast? at h
      split at h
      · rename_i hw
        cases h
        simp [List.isEmpty_iff.mp hw]
      · cases h
  | cons c cs ih =>
      unfold splitLast? at h
      split at h
      · rename_i b r hs
        cases h
        simp [ih hs]
      · simp only [Option.map_eq_some_iff] at h
        obtain ⟨rest, hrest, he⟩ := h
        cases he
        simpa using after?_eq_some_iff.mp hrest

theorem trimEnd_concat {c : Char} (cs : List Char) :
    trimEnd (cs ++ [c]) = if isBlank c then trimEnd cs else cs ++ [c] := by
  unfold trimEnd
  rw [List.reverse_append, List.reverse_singleton, List.singleton_append, List.dropWhile_cons]
  split
  · rfl
  · simp

/-- Where a word occurs, its first occurrence is not behind that place. -/
theorem exists_splitFirst? (word before rest : List Char) : ∃ front back,
    splitFirst? word (before ++ (word ++ rest)) = some (front, back) ∧ rest <:+ back := by
  induction before with
  | nil =>
      refine ⟨[], rest, ?_, List.suffix_refl rest⟩
      cases word with
      | nil => cases rest <;> rfl
      | cons c word =>
          have hword : after? (c :: word) (c :: (word ++ rest)) = some rest :=
            after?_eq_some_iff.mpr rfl
          simp [splitFirst?, hword]
  | cons c before ih =>
      obtain ⟨front, back, hsplit, hsuffix⟩ := ih
      rw [List.cons_append, splitFirst?]
      cases hword : after? word (c :: (before ++ (word ++ rest))) with
      | none => exact ⟨c :: front, back, by rw [hsplit]; rfl, hsuffix⟩
      | some early =>
          have hwhole := after?_eq_some_iff.mp hword
          have hrest : rest <:+ c :: (before ++ (word ++ rest)) := ⟨c :: (before ++ word), by simp⟩
          have hearly : early <:+ c :: (before ++ (word ++ rest)) := ⟨word, hwhole.symm⟩
          have hlength := congrArg List.length hwhole
          simp only [List.length_cons, List.length_append] at hlength
          exact ⟨[], early, rfl, List.suffix_of_suffix_length_le hrest hearly (by omega)⟩

theorem occurs_iff {word cs : List Char} :
    occurs word cs = true ↔ ∃ before rest, cs = before ++ (word ++ rest) := by
  unfold occurs
  constructor
  · intro h
    obtain ⟨⟨before, rest⟩, hsplit⟩ := Option.isSome_iff_exists.mp h
    exact ⟨before, rest, eq_of_splitFirst? hsplit⟩
  · rintro ⟨before, rest, rfl⟩
    obtain ⟨front, back, hsplit, -⟩ := exists_splitFirst? word before rest
    rw [hsplit]
    rfl

/-- What stands behind a character that a word does not hold makes no difference to whether a text
begins with the word. -/
theorem after?_append_cons {word : List Char} {c : Char} (hc : c ∉ word) (cs tail : List Char) :
    after? word (cs ++ c :: tail) = (after? word cs).map (· ++ c :: tail) := by
  induction word generalizing cs with
  | nil => rfl
  | cons w word ih =>
      have hne : w ≠ c := fun he => hc (by simp [he])
      cases cs with
      | nil => simp [after?, hne]
      | cons d cs =>
          have hrest := ih (fun hm => hc (List.mem_cons_of_mem _ hm)) cs
          simp only [List.cons_append, after?, hrest]
          split <;> rfl

/-- A text is replaced in front of and behind a character that the word does not hold. -/
theorem replaceFrom_append_cons {word : List Char} {c : Char} (hne : word ≠ []) (hc : c ∉ word)
    (value tail : List Char) {skip : Nat} {cs : List Char} (hskip : skip ≤ cs.length) :
    replaceFrom word value skip (cs ++ c :: tail) =
      replaceFrom word value skip cs ++ c :: replaceFrom word value 0 tail := by
  induction cs generalizing skip with
  | nil =>
      obtain rfl : skip = 0 := Nat.le_zero.mp hskip
      obtain ⟨w, word, rfl⟩ := List.exists_cons_of_ne_nil hne
      have hwc : w ≠ c := fun he => hc (by simp [he])
      simp [replaceFrom, after?, hwc]
  | cons d cs ih =>
      cases skip with
      | succ skip => exact ih (Nat.le_of_succ_le_succ hskip)
      | zero =>
          have hafter := after?_append_cons hc (d :: cs) tail
          simp only [List.cons_append] at hafter
          simp only [List.cons_append, replaceFrom, hafter]
          cases hw : after? word (d :: cs) with
          | none => exact congrArg (d :: ·) (ih (Nat.zero_le _))
          | some rest =>
              have hlen := congrArg List.length (after?_eq_some_iff.mp hw)
              simp only [List.length_cons, List.length_append] at hlen
              have hrest := ih (show word.length - 1 ≤ cs.length by omega)
              simp only [Option.map_some, hrest, List.append_assoc]

theorem replaceFrom_eq_self {word cs : List Char} (h : occurs word cs = false)
    (value : List Char) : replaceFrom word value 0 cs = cs := by
  induction cs with
  | nil => rfl
  | cons c cs ih =>
      unfold occurs splitFirst? at h
      rw [replaceFrom]
      cases hword : after? word (c :: cs) with
      | some rest => simp [hword] at h
      | none =>
          simp only [hword, Option.isSome_map] at h
          exact congrArg (c :: ·) (ih h)

/-- The first occurrence, if it does not stand in front of a character that the word does not hold,
stands behind it. -/
theorem splitFirst?_append_cons {word cs : List Char} {c : Char} (hne : word ≠ []) (hc : c ∉ word)
    (h : occurs word cs = false) (tail : List Char) :
    splitFirst? word (cs ++ c :: tail) =
      (splitFirst? word tail).map fun parts => (cs ++ c :: parts.1, parts.2) := by
  induction cs with
  | nil =>
      have hnone : after? word (c :: tail) = none := by
        have hafter := after?_append_cons hc [] tail
        obtain ⟨w, word, rfl⟩ := List.exists_cons_of_ne_nil hne
        exact hafter
      rw [List.nil_append, splitFirst?, hnone]
      rfl
  | cons d cs ih =>
      unfold occurs splitFirst? at h
      cases hword : after? word (d :: cs) with
      | some rest => simp [hword] at h
      | none =>
          simp only [hword, Option.isSome_map] at h
          have hafter := after?_append_cons hc (d :: cs) tail
          rw [hword, Option.map_none, List.cons_append] at hafter
          rw [List.cons_append, splitFirst?, hafter]
          simp only [ih h, Option.map_map]
          rfl

/-- The first occurrence in front of a character that the word does not hold is the first of all. -/
theorem splitFirst?_append_cons_of_some {word cs before after : List Char} {c : Char}
    (hne : word ≠ []) (hc : c ∉ word) (h : splitFirst? word cs = some (before, after))
    (tail : List Char) :
    splitFirst? word (cs ++ c :: tail) = some (before, after ++ c :: tail) := by
  induction cs generalizing before with
  | nil =>
      obtain ⟨w, word, rfl⟩ := List.exists_cons_of_ne_nil hne
      cases h
  | cons d cs ih =>
      have hafter := after?_append_cons hc (d :: cs) tail
      rw [List.cons_append] at hafter ⊢
      rw [splitFirst?] at h ⊢
      rw [hafter]
      cases hword : after? word (d :: cs) with
      | some rest =>
          rw [hword] at h
          cases h
          rfl
      | none =>
          rw [hword] at h
          obtain ⟨⟨front, back⟩, hsplit, he⟩ := Option.map_eq_some_iff.mp h
          cases he
          simp only [Option.map_none, ih hsplit, Option.map_some]

theorem trimEnd_append {core gap : List Char} {last : Char} (hlast : core.getLast? = some last)
    (hcore : isBlank last = false) (hgap : ∀ b ∈ gap, isBlank b = true) :
    trimEnd (core ++ gap) = core := by
  obtain ⟨front, rfl⟩ := List.getLast?_eq_some_iff.mp hlast
  rw [trimEnd, List.reverse_append, List.dropWhile_append_of_pos (by simpa using hgap),
    List.reverse_append, List.reverse_singleton, List.singleton_append,
    List.dropWhile_cons_of_neg (by simp [hcore])]
  simp

theorem occurs_iff_infix {word cs : List Char} : occurs word cs = true ↔ word <:+: cs := by
  rw [occurs_iff]
  constructor
  · rintro ⟨before, rest, rfl⟩
    exact ⟨before, rest, List.append_assoc _ _ _⟩
  · rintro ⟨before, rest, h⟩
    exact ⟨before, rest, by rw [← h, List.append_assoc]⟩

theorem splitFirst?_eq_none_iff {word cs : List Char} :
    splitFirst? word cs = none ↔ ¬ word <:+: cs := by
  rw [← occurs_iff_infix, occurs, Option.not_isSome_iff_eq_none]

/-- In front of the first occurrence no other one begins, not even one that runs into it. -/
theorem not_infix_of_splitFirst? {word cs before rest : List Char} (hne : word ≠ [])
    (h : splitFirst? word cs = some (before, rest)) : ¬ word <:+: before ++ word.dropLast := by
  induction cs generalizing before with
  | nil =>
      rw [splitFirst?, if_neg (by simpa using hne)] at h
      cases h
  | cons c cs ih =>
      rw [splitFirst?] at h
      cases hword : after? word (c :: cs) with
      | some back =>
          rw [hword] at h
          cases h
          intro hinfix
          have hle := hinfix.length_le
          have hpos := List.length_pos_iff.mpr hne
          simp only [List.nil_append, List.length_dropLast] at hle
          omega
      | none =>
          rw [hword] at h
          obtain ⟨⟨front, back⟩, hsplit, he⟩ := Option.map_eq_some_iff.mp h
          cases he
          rw [List.cons_append, List.infix_cons_iff, not_or]
          refine ⟨fun hstart => ?_, ih hsplit⟩
          -- an occurrence at the very beginning would have been found there
          have hcs := eq_of_splitFirst? hsplit
          have hprefix : c :: (front ++ word.dropLast) <+: c :: cs := by
            rw [hcs, List.cons_prefix_cons, List.prefix_append_right_inj]
            exact ⟨rfl, (List.dropLast_prefix word).trans (List.prefix_append word _)⟩
          obtain ⟨tail, htail⟩ := hstart.trans hprefix
          rw [after?_eq_some_iff.mpr htail.symm] at hword
          cases hword

/-- A place where a word occurs is the first one just when no occurrence begins in front of it. -/
theorem splitFirst?_eq_some_iff {word cs before rest : List Char} (hne : word ≠ []) :
    splitFirst? word cs = some (before, rest) ↔
      cs = before ++ (word ++ rest) ∧ ¬ word <:+: before ++ word.dropLast := by
  refine ⟨fun h => ⟨eq_of_splitFirst? h, not_infix_of_splitFirst? hne h⟩, ?_⟩
  rintro ⟨rfl, hfree⟩
  obtain ⟨front, back, hsplit, hback⟩ := exists_splitFirst? word before rest
  have hwhole := eq_of_splitFirst? hsplit
  have hlength := congrArg List.length hwhole
  have hle := hback.length_le
  have hpos := List.length_pos_iff.mpr hne
  simp only [List.length_append] at hlength
  have hfront : ¬ front.length < before.length := by
    intro hlt
    -- then the first occurrence ends in front of the last character of this one
    have hfound : front ++ word <+: before ++ (word ++ rest) := by
      rw [hwhole, ← List.append_assoc]
      exact List.prefix_append _ _
    have hplace : before ++ word.dropLast <+: before ++ (word ++ rest) := by
      rw [List.prefix_append_right_inj]
      exact (List.dropLast_prefix word).trans (List.prefix_append word _)
    have hshort : (front ++ word).length ≤ (before ++ word.dropLast).length := by
      simp only [List.length_append, List.length_dropLast]
      omega
    exact hfree ((List.suffix_append front word).isInfix.trans
      (List.prefix_of_prefix_length_le hfound hplace hshort).isInfix)
  obtain ⟨rfl, hrest⟩ := List.append_inj hwhole (by omega)
  rw [hsplit, List.append_cancel_left hrest]

/-- A word whose first character is not repeated in it is found where it is put, behind a text
without it. -/
theorem splitFirst?_append_word {c : Char} {word before : List Char} (hc : c ∉ word)
    (h : ¬ c :: word <:+: before) (rest : List Char) :
    splitFirst? (c :: word) (before ++ (c :: word ++ rest)) = some (before, rest) := by
  rw [splitFirst?_eq_some_iff (by simp)]
  refine ⟨rfl, fun hinfix => ?_⟩
  rcases List.infix_append_iff.mp hinfix with hbefore | hword | ⟨x, y, hxy, hx, hy⟩
  · exact h hbefore
  · have hle := hword.length_le
    simp only [List.length_dropLast, List.length_cons] at hle
    omega
  · cases x with
    | nil =>
        have hle := hy.length_le
        rw [← List.nil_append y, ← hxy, List.length_dropLast, List.length_cons] at hle
        omega
    | cons d x =>
        obtain ⟨-, hword⟩ := List.cons.inj hxy
        cases y with
        | nil =>
            rw [List.append_nil] at hxy
            exact h (hxy ▸ hx.isInfix)
        | cons e y =>
            obtain ⟨rfl, -⟩ := List.cons_prefix_cons.mp
              (hy.trans (List.dropLast_prefix (c :: word)))
            exact hc (by simp [hword])

end DefineBundle.Text
