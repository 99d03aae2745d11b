import DefineBundle.Proofs.Text.Search

/-!
# Replacing a word

When a word is replaced, a text falls into the parts in front of its occurrences, and a value takes
the place of each. A word that was not there before, or the replaced one itself, can only come up in
the result where a value meets the text around it. Two things keep it from coming up: a value that
cannot be completed to the word, and text around the value that the word cannot run into.
-/
namespace DefineBundle.Text

/-- A text and what becomes of it when a word is replaced by a value: the first occurrence is, and
then those in the text behind it. -/
inductive Replaced (word value : List Char) : List Char → List Char → Prop
  | rest {cs : List Char} : ¬ word <:+: cs → Replaced word value cs cs
  | step {before rest result : List Char} : ¬ word <:+: before ++ word.dropLast →
      Replaced word value rest result →
      Replaced word value (before ++ (word ++ rest)) (before ++ (value ++ result))

theorem replaceFrom_append (word value skipped cs : List Char) :
    replaceFrom word value skipped.length (skipped ++ cs) = replaceFrom word value 0 cs := by
  induction skipped with
  | nil => rfl
  | cons c skipped ih => exact ih

theorem replaceFrom_of_splitFirst? {word cs before rest : List Char} (hne : word ≠ [])
    (h : splitFirst? word cs = some (before, rest)) (value : List Char) :
    replaceFrom word value 0 cs = before ++ (value ++ replaceFrom word value 0 rest) := by
  induction cs generalizing before with
  | nil =>
      rw [splitFirst?, if_neg (by simpa using hne)] at h
      cases h
  | cons c cs ih =>
      rw [splitFirst?] at h
      rw [replaceFrom]
      cases hword : after? word (c :: cs) with
      | some back =>
          rw [hword] at h
          cases h
          obtain ⟨w, word, rfl⟩ := List.exists_cons_of_ne_nil hne
          obtain ⟨-, rfl⟩ := List.cons.inj (after?_eq_some_iff.mp hword)
          exact congrArg (value ++ ·) (replaceFrom_append (w :: word) value word rest)
      | none =>
          rw [hword] at h
          obtain ⟨⟨front, back⟩, hsplit, he⟩ := Option.map_eq_some_iff.mp h
          cases he
          exact congrArg (c :: ·) (ih hsplit)

theorem replaceAll_of_splitFirst? {word cs before rest : List Char} (hne : word ≠ [])
    (h : splitFirst? word cs = some (before, rest)) (value : List Char) :
    replaceAll word value cs = before ++ (value ++ replaceAll word value rest) := by
  have hempty : word.isEmpty = false := by simpa using hne
  simp only [replaceAll, hempty, Bool.false_eq_true, if_false]
  exact replaceFrom_of_splitFirst? hne h value

theorem replaceAll_eq_self {word cs : List Char} (h : ¬ word <:+: cs) (value : List Char) :
    replaceAll word value cs = cs := by
  have hoccurs : occurs word cs = false := by rwa [← Bool.not_eq_true, occurs_iff_infix]
  rw [replaceAll, replaceFrom_eq_self hoccurs, ite_self]

theorem replaced_replaceAll {word : List Char} (hne : word ≠ []) (value cs : List Char) :
    Replaced word value cs (replaceAll word value cs) := by
  induction hlength : cs.length using Nat.strongRecOn generalizing cs with
  | _ n ih =>
      cases hsplit : splitFirst? word cs with
      | none =>
          have hfree := splitFirst?_eq_none_iff.mp hsplit
          rw [replaceAll_eq_self hfree]
          exact .rest hfree
      | some parts =>
          obtain ⟨before, rest⟩ := parts
          rw [replaceAll_of_splitFirst? hne hsplit]
          obtain ⟨rfl, hfirst⟩ := (splitFirst?_eq_some_iff hne).mp hsplit
          refine .step hfirst (ih rest.length ?_ rest rfl)
          have hpos := List.length_pos_iff.mpr hne
          simp only [List.length_append] at hlength
          omega

/-- A value that no text around it completes to a word that begins and ends with two signs `@`:
neither holds the other, the value does not end as the word begins, and it does not begin as the
word ends, the last two signs aside. Those have to be in front of the value already. -/
structure Apart (value word : List Char) : Prop where
  not_inside : ¬ value <:+: word
  not_around : ¬ word <:+: value
  tail : ∀ s, s <:+ value → s <+: word → s = []
  head : ∀ s, s <+: value → s <:+ word → s <:+ ['@', '@']

theorem prefix_of_suffix_signs {s : List Char} (h : s <:+ ['@', '@']) : s <+: ['@', '@'] := by
  rw [List.suffix_cons_iff, List.suffix_cons_iff, List.suffix_nil] at h
  rcases h with rfl | rfl | rfl
  · exact List.prefix_refl _
  · exact ⟨['@'], rfl⟩
  · exact List.nil_prefix

/-- Between a text that the word does not end, not even with two signs more, and one without the
word, the value does not bring it up. -/
theorem Apart.not_infix_append {value word before result : List Char} (h : Apart value word)
    (hbefore : ¬ word <:+: before ++ ['@', '@']) (hresult : ¬ word <:+: result) :
    ¬ word <:+: before ++ (value ++ result) := by
  intro hinfix
  rcases List.infix_append_iff.mp hinfix with hin | hin | ⟨x, y, rfl, hx, hy⟩
  · exact hbefore (hin.trans (List.prefix_append _ _).isInfix)
  · -- it begins in the value or behind it
    rcases List.infix_append_iff.mp hin with hin | hin | ⟨x, y, rfl, hx, hy⟩
    · exact h.not_around hin
    · exact hresult hin
    · obtain rfl := h.tail x hx (List.prefix_append x y)
      exact hresult hy.isInfix
  · -- it begins in front of the value and ends in it or behind it
    rcases List.prefix_or_prefix_of_prefix hy (List.prefix_append value result) with hin | hover
    · have hsigns := h.head y hin (List.suffix_append x y)
      obtain ⟨gap, rfl⟩ := hx
      obtain ⟨more, hmore⟩ := prefix_of_suffix_signs hsigns
      exact hbefore ⟨gap, more, by rw [← hmore]; simp⟩
    · exact h.not_inside (hover.isInfix.trans (List.suffix_append x y).isInfix)

/-- When a word that begins with two signs is replaced, the word itself does not come up again, and
no other word comes up that was not there, if the value is apart from it. -/
theorem Replaced.not_infix_result {word value other cs result : List Char}
    (h : Replaced word value cs result) (hsigns : ['@', '@'] <+: word.dropLast)
    (hapart : Apart value other) (hother : other = word ∨ ¬ other <:+: cs) :
    ¬ other <:+: result := by
  induction h with
  | rest hfree =>
      rcases hother with rfl | hother
      · exact hfree
      · exact hother
  | @step before rest result hfirst hrest ih =>
      apply hapart.not_infix_append
      · rcases hother with rfl | hother
        · refine fun hin => hfirst (hin.trans ?_)
          exact ((List.prefix_append_right_inj before).mpr hsigns).isInfix
        · refine fun hin => hother (hin.trans ?_)
          have hword := hsigns.trans (List.dropLast_prefix word)
          exact ((List.prefix_append_right_inj before).mpr
            (hword.trans (List.prefix_append word rest))).isInfix
      · apply ih
        refine hother.imp_right fun hother hin => hother (hin.trans ?_)
        exact ((List.suffix_append word rest).trans (List.suffix_append before _)).isInfix

/-- Every occurrence of a word stands at an end of the text or next to a character that is in no
word, on either side. -/
def StandsFree (words : List (List Char)) (cs : List Char) : Prop :=
  ∀ word ∈ words, ∀ before rest, cs = before ++ (word ++ rest) →
    (∀ c, before.getLast? = some c → ∀ other ∈ words, c ∉ other) ∧
      ∀ c, rest.head? = some c → ∀ other ∈ words, c ∉ other

/-- It is enough to look at every place of the text. -/
theorem standsFree_iff {words : List (List Char)} {cs : List Char} :
    StandsFree words cs ↔ ∀ word ∈ words, ∀ n ∈ List.range (cs.length + 1),
      word.isPrefixOf (cs.drop n) →
        (∀ c ∈ (cs.take n).getLast?.toList, ∀ other ∈ words, c ∉ other) ∧
          ∀ c ∈ (cs.drop (n + word.length)).head?.toList, ∀ other ∈ words, c ∉ other := by
  constructor
  · intro h word hword n hn hocc
    obtain ⟨rest, hrest⟩ := List.isPrefixOf_iff_prefix.mp hocc
    have hbehind : cs.drop (n + word.length) = rest := by
      rw [← List.drop_drop, ← hrest, List.drop_left]
    obtain ⟨hlast, hhead⟩ := h word hword (cs.take n) rest (by rw [hrest, List.take_append_drop])
    rw [hbehind]
    exact ⟨fun c hc => hlast c (Option.mem_toList.mp hc),
      fun c hc => hhead c (Option.mem_toList.mp hc)⟩
  · rintro h word hword before rest rfl
    have hn : before.length < (before ++ (word ++ rest)).length + 1 := by
      simp only [List.length_append]
      omega
    obtain ⟨hlast, hhead⟩ := h word hword before.length (List.mem_range.mpr hn) (by simp)
    simp only [List.take_left, List.drop_length_add_append, List.drop_left] at hlast hhead
    exact ⟨fun c hc => hlast c (Option.mem_toList.mpr hc),
      fun c hc => hhead c (Option.mem_toList.mpr hc)⟩

instance (words : List (List Char)) (cs : List Char) : Decidable (StandsFree words cs) :=
  decidable_of_iff' _ standsFree_iff

/-- A word does not reach across a place where the character on one side is not in it. -/
theorem place_of_append {front back before word rest : List Char}
    (hsep : (∀ c, front.getLast? = some c → c ∉ word) ∨ ∀ c, back.head? = some c → c ∉ word)
    (h : front ++ back = before ++ (word ++ rest)) :
    (∃ gap, front = before ++ (word ++ gap) ∧ rest = gap ++ back) ∨
      ∃ gap, back = gap ++ (word ++ rest) ∧ before = front ++ gap := by
  rcases List.append_eq_append_iff.mp h with ⟨gap, rfl, hback⟩ | ⟨start, rfl, hback⟩
  · exact .inr ⟨gap, hback, rfl⟩
  · rcases List.append_eq_append_iff.mp hback with ⟨gap, rfl, hrest⟩ | ⟨more, rfl, hmore⟩
    · exact .inl ⟨gap, rfl, hrest⟩
    · -- the word begins with `start` in front of the place and ends with `more` behind it
      cases hstart : start.getLast? with
      | none =>
          obtain rfl := List.getLast?_eq_none_iff.mp hstart
          exact .inr ⟨[], hmore, by simp⟩
      | some last =>
          cases more with
          | nil => exact .inl ⟨[], by simp, by simpa using hmore.symm⟩
          | cons first more =>
              rcases hsep with hfront | hback
              · have hlast : (before ++ start).getLast? = some last := by
                  rw [List.getLast?_append, hstart]
                  rfl
                exact absurd (List.mem_append_left _ (List.mem_of_getLast? hstart))
                  (hfront last hlast)
              · exact absurd (List.mem_append_right _ List.mem_cons_self)
                  (hback first (by rw [hmore]; rfl))

/-- Around a value without the word, where the characters next to the value are not in the word, an
occurrence of the word lies in front of the value or behind it. -/
theorem place_around {before value result front word back : List Char}
    (hlast : ∀ c, before.getLast? = some c → c ∉ word)
    (hhead : ∀ c, result.head? = some c → c ∉ word) (hvalue : ¬ word <:+: value)
    (h : before ++ (value ++ result) = front ++ (word ++ back)) :
    (∃ gap, before = front ++ (word ++ gap) ∧ back = gap ++ (value ++ result)) ∨
      ∃ gap, result = gap ++ (word ++ back) ∧ front = before ++ (value ++ gap) := by
  rcases place_of_append (.inl hlast) h with hbefore | ⟨gap, hin, rfl⟩
  · exact .inl hbefore
  · rcases place_of_append (.inr hhead) hin with ⟨gap', rfl, -⟩ | ⟨gap', hbehind, rfl⟩
    · exact absurd ⟨gap, gap', List.append_assoc gap word gap'⟩ hvalue
    · exact .inr ⟨gap', hbehind, rfl⟩

section
variable {words : List (List Char)} {word value cs result : List Char}

/-- A text that begins with no character of the word begins as before. -/
theorem Replaced.head?_eq (h : Replaced word value cs result) (hne : word ≠ [])
    (hhead : ∀ c, cs.head? = some c → c ∉ word) : result.head? = cs.head? := by
  cases h with
  | rest => rfl
  | @step before =>
      cases before with
      | nil =>
          obtain ⟨w, word, rfl⟩ := List.exists_cons_of_ne_nil hne
          exact absurd List.mem_cons_self (hhead w rfl)
      | cons c before => rfl

/-- Words that stand free in a text stand free behind an occurrence of one of them. -/
theorem StandsFree.behind {before rest : List Char}
    (h : StandsFree words (before ++ (word ++ rest))) : StandsFree words rest := by
  rintro other hother front back rfl
  have hwhole : before ++ (word ++ (front ++ (other ++ back))) =
      before ++ (word ++ front) ++ (other ++ back) := by simp
  obtain ⟨hleft, hright⟩ := h other hother _ back hwhole
  refine ⟨fun c hc => hleft c ?_, hright⟩
  rw [← List.append_assoc, List.getLast?_append, hc]
  rfl

section
variable {before rest other : List Char} (hfree : StandsFree words (before ++ (word ++ rest)))
  (hword : word ∈ words) (hsame : result.head? = rest.head?)
include hfree hword hsame

/-- With a value in place of a word that stands free, any word lies in front of the value or behind
it. -/
theorem StandsFree.place (hother : other ∈ words) (hvalue : ¬ other <:+: value)
    {front back : List Char} (h : before ++ (value ++ result) = front ++ (other ++ back)) :
    (∃ gap, before = front ++ (other ++ gap) ∧ back = gap ++ (value ++ result)) ∨
      ∃ gap, result = gap ++ (other ++ back) ∧ front = before ++ (value ++ gap) := by
  obtain ⟨hlast, hhead⟩ := hfree word hword before rest rfl
  exact place_around (fun c hc => hlast c hc other hother)
    (fun c hc => hhead c (hsame ▸ hc) other hother) hvalue h

theorem StandsFree.replace (hne : [] ∉ words) (hvalue : ∀ other ∈ words, ¬ other <:+: value)
    (hresult : StandsFree words result) : StandsFree words (before ++ (value ++ result)) := by
  obtain ⟨hlast, hhead⟩ := hfree word hword before rest rfl
  intro other hother front back hocc
  have hotherne : other ≠ [] := fun he => hne (he ▸ hother)
  rcases hfree.place hword hsame hother (hvalue other hother) hocc with
    ⟨gap, rfl, rfl⟩ | ⟨gap, rfl, rfl⟩
  · obtain ⟨hleft, hright⟩ := hfree other hother front (gap ++ (word ++ rest)) (by simp)
    refine ⟨hleft, fun c hc => ?_⟩
    cases gap with
    | nil =>
        -- an occurrence right in front of another one would end in a character of no word
        have hend := List.getLast?_eq_some_getLast hotherne
        refine absurd (List.getLast_mem hotherne) (hlast _ ?_ other hother)
        rw [List.append_nil, List.getLast?_append, hend]
        rfl
    | cons d gap => exact hright c hc
  · obtain ⟨hleft, hright⟩ := hresult other hother gap back rfl
    refine ⟨fun c hc => ?_, hright⟩
    cases hgap : gap.getLast? with
    | none =>
        obtain rfl := List.getLast?_eq_none_iff.mp hgap
        obtain ⟨o, other, rfl⟩ := List.exists_cons_of_ne_nil hotherne
        exact absurd List.mem_cons_self (hhead o (hsame ▸ rfl) _ hother)
    | some d =>
        rw [← List.append_assoc, List.getLast?_append, hgap] at hc
        exact hleft c (hgap.trans hc)

end

/-- Where the words stand free and the value holds none of them, the value is put in their place and
nothing else changes: they still stand free, the replaced word is gone and no other one comes up. -/
theorem Replaced.standsFree (h : Replaced word value cs result) (hword : word ∈ words)
    (hne : [] ∉ words) (hvalue : ∀ other ∈ words, ¬ other <:+: value)
    (hfree : StandsFree words cs) : StandsFree words result ∧
      ∀ other ∈ words, other = word ∨ ¬ other <:+: cs → ¬ other <:+: result := by
  have hwordne : word ≠ [] := fun he => hne (he ▸ hword)
  induction h with
  | rest hgone =>
      refine ⟨hfree, ?_⟩
      rintro other - (rfl | hother)
      · exact hgone
      · exact hother
  | @step before rest result hfirst hrest ih =>
      obtain ⟨-, hhead⟩ := hfree word hword before rest rfl
      have hsame := hrest.head?_eq hwordne fun c hc => hhead c hc word hword
      obtain ⟨hresult, hothers⟩ := ih hfree.behind
      refine ⟨hfree.replace hword hsame hne hvalue hresult, ?_⟩
      rintro other hother hgone ⟨front, back, hocc⟩
      rw [List.append_assoc] at hocc
      rcases hfree.place hword hsame hother (hvalue other hother) hocc.symm with
        ⟨gap, rfl, -⟩ | ⟨gap, rfl, -⟩
      · rcases hgone with rfl | hgone
        · exact hfirst ⟨front, gap ++ other.dropLast, by simp⟩
        · exact hgone ⟨front, gap ++ (word ++ rest), by simp⟩
      · refine hothers other hother (hgone.imp_right fun hgone hin => hgone (hin.trans ?_))
          ⟨gap, back, by simp⟩
        exact ((List.suffix_append word rest).trans (List.suffix_append before _)).isInfix

end

end DefineBundle.Text
