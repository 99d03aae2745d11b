import DefineBundle.Proofs.Text.Pieces
import DefineBundle.Proofs.Text.Replacement
import Mathlib.Data.List.Basic

/-!
# Placeholders

A placeholder is a name between signs `@`, and the name is a piece of every text that holds it. So
it is found at once where the texts around it do not have the name as a piece. A value that is not
apart from a placeholder is completed to it by texts that are no more than a part of the placeholder
each.
-/
namespace DefineBundle.Text

/-- A name between two signs `@` on either side. -/
def placeholder (name : List Char) : List Char :=
  '@' :: '@' :: (name ++ ['@', '@'])

section
variable {name value x y : List Char}

theorem length_placeholder (name : List Char) : (placeholder name).length = name.length + 4 := by
  simp [placeholder]

theorem signs_prefix_dropLast_placeholder (name : List Char) :
    ['@', '@'] <+: (placeholder name).dropLast := by
  refine ⟨name ++ ['@'], ?_⟩
  have hsplit : placeholder name = ('@' :: '@' :: (name ++ ['@'])) ++ ['@'] := by
    simp [placeholder]
  rw [hsplit, List.dropLast_concat]
  rfl

theorem splitOn_placeholder (hname : '@' ∉ name) (before rest : List Char) :
    splitOn '@' (before ++ (placeholder name ++ rest)) =
      splitOn '@' before ++ [] :: name :: [] :: splitOn '@' rest := by
  have hsplit : before ++ (placeholder name ++ rest) =
      before ++ '@' :: ([] ++ '@' :: (name ++ '@' :: ([] ++ '@' :: rest))) := by
    simp [placeholder]
  rw [hsplit, splitOn_append_cons, splitOn_append_cons, splitOn_append_cons, splitOn_append_cons,
    splitOn_of_notMem hname]
  rfl

theorem mem_splitOn_of_placeholder {cs : List Char} (hname : '@' ∉ name)
    (h : placeholder name <:+: cs) : name ∈ splitOn '@' cs := by
  obtain ⟨before, rest, rfl⟩ := h
  rw [List.append_assoc, splitOn_placeholder hname]
  simp

/-- Between texts without the name as a piece, the placeholder is found where it stands. -/
theorem splitFirst?_placeholder (hname : '@' ∉ name) (hne : name ≠ []) (hx : name ∉ splitOn '@' x)
    (hy : name ∉ splitOn '@' y) :
    splitFirst? (placeholder name) (x ++ (placeholder name ++ y)) = some (x, y) := by
  obtain ⟨front, back, hsplit, -⟩ := exists_splitFirst? (placeholder name) x y
  have hwhole := eq_of_splitFirst? hsplit
  have hpieces := congrArg (splitOn '@') hwhole
  rw [splitOn_placeholder hname, splitOn_placeholder hname, List.append_cons,
    List.append_cons (splitOn '@' front)] at hpieces
  obtain ⟨hfront, -, -⟩ := (List.append_cons_inj_of_notMem (by simp [hx, hne])
    (by simp [hy, hne])).mp hpieces
  obtain rfl : x = front := by
    rw [← joinWith_splitOn '@' x, List.append_cancel_right hfront, joinWith_splitOn]
  rw [hsplit, List.append_cancel_left (List.append_cancel_left hwhole)]

theorem replaceAll_placeholder (hname : '@' ∉ name) (hne : name ≠ []) (hx : name ∉ splitOn '@' x)
    (hy : name ∉ splitOn '@' y) (value : List Char) :
    replaceAll (placeholder name) value (x ++ (placeholder name ++ y)) = x ++ (value ++ y) := by
  rw [replaceAll_of_splitFirst? (by simp [placeholder]) (splitFirst?_placeholder hname hne hx hy),
    replaceAll_eq_self fun h => hy (mem_splitOn_of_placeholder hname h)]

/-- Of two placeholders that share a sign only the first one is replaced. -/
theorem replaceAll_shared (name value : List Char) :
    replaceAll (placeholder name) value (placeholder name ++ '@' :: (name ++ ['@', '@'])) =
      value ++ '@' :: (name ++ ['@', '@']) := by
  have hne : placeholder name ≠ [] := by simp [placeholder]
  have hfirst : splitFirst? (placeholder name)
      (placeholder name ++ '@' :: (name ++ ['@', '@'])) =
        some ([], '@' :: (name ++ ['@', '@'])) := by
    rw [splitFirst?_eq_some_iff hne]
    refine ⟨rfl, fun hin => ?_⟩
    have hle := hin.length_le
    simp [placeholder] at hle
  rw [replaceAll_of_splitFirst? hne hfirst, replaceAll_eq_self]
  · rfl
  · intro hin
    have hle := hin.length_le
    simp [placeholder] at hle

theorem splitOn_shared (hname : '@' ∉ name) :
    splitOn '@' (placeholder name ++ '@' :: (name ++ ['@', '@'])) =
      [[], [], name, [], [], name, [], []] := by
  have hrest : splitOn '@' ('@' :: (name ++ ['@', '@'])) = [[], name, [], []] := by
    rw [splitOn, if_pos (by simp), splitOn_append_cons, splitOn_of_notMem hname]
    rfl
  have hplace := splitOn_placeholder hname [] ('@' :: (name ++ ['@', '@']))
  rwa [List.nil_append, hrest] at hplace

/-- When a placeholder is replaced, it does not come up again, and no other word comes up that was
not there, if the value is apart from it. -/
theorem not_infix_replaceAll_placeholder (name : List Char) {word cs : List Char}
    (hapart : Apart value word) (h : word = placeholder name ∨ ¬ word <:+: cs) :
    ¬ word <:+: replaceAll (placeholder name) value cs := by
  have hne : placeholder name ≠ [] := by simp [placeholder]
  exact (replaced_replaceAll hne value cs).not_infix_result (signs_prefix_dropLast_placeholder name)
    hapart h

/-- A character of the name has two signs in front of it and two behind it. -/
theorem two_le_length_of_placeholder_eq {c : Char} (h : placeholder name = x ++ c :: y)
    (hc : c ≠ '@') : 2 ≤ x.length ∧ 2 ≤ y.length := by
  have hleft : ∀ {name x y}, placeholder name = x ++ c :: y → 2 ≤ x.length := by
    intro name x y h
    match x with
    | [] => exact absurd (List.cons.inj h).1.symm hc
    | [_] => exact absurd (List.cons.inj (List.cons.inj h).2).1.symm hc
    | _ :: _ :: x => simp
  have hreverse : placeholder name.reverse = y.reverse ++ c :: x.reverse := by
    have hrev := congrArg List.reverse h
    simpa [placeholder] using hrev
  exact ⟨hleft h, by simpa using hleft hreverse⟩

theorem not_apart_cases {word : List Char} (h : ¬ Apart value word) :
    value <:+: word ∨ word <:+: value ∨ (∃ s, s ≠ [] ∧ s <:+ value ∧ s <+: word) ∨
      ∃ s, s <+: value ∧ s <:+ word ∧ ¬ s <:+ ['@', '@'] := by
  by_contra hnone
  push Not at hnone
  obtain ⟨hinside, haround, htail, hhead⟩ := hnone
  exact h ⟨hinside, haround, fun s hs hword => by_contra fun hne => htail s hne hs hword, hhead⟩

/-- A value without signs is apart from a placeholder that it is no part of. -/
theorem apart_of_notMem (hat : '@' ∉ value) (h : ¬ value <:+: placeholder name) :
    Apart value (placeholder name) := by
  refine ⟨h, fun hin => hat (hin.subset List.mem_cons_self), fun s hs hword => ?_,
    fun s hs hword => ?_⟩
  · cases s with
    | nil => rfl
    | cons c s =>
        obtain ⟨rfl, -⟩ := List.cons_prefix_cons.mp hword
        exact absurd (hs.subset List.mem_cons_self) hat
  · rcases List.eq_nil_or_concat' s with rfl | ⟨s, c, rfl⟩
    · exact List.nil_suffix
    · obtain ⟨front, hfront⟩ := hword
      have hsplit : front ++ s ++ [c] = '@' :: '@' :: (name ++ ['@']) ++ ['@'] := by
        rw [List.append_assoc, hfront]
        simp [placeholder]
      obtain rfl := List.singleton_inj.mp (List.append_inj_right' hsplit rfl)
      exact absurd (hs.subset (by simp)) hat

/-- Texts in front of a value and behind it that bring up a placeholder. Each is a part of it that
lacks at least one character of the name. Around a value without a sign they make the placeholder
alone. -/
structure Completion (name value x y : List Char) : Prop where
  start : x <+: placeholder name
  length_start : x.length ≤ name.length + 1
  rest : y <:+ placeholder name
  length_rest : y.length ≤ name.length + 1
  brings : placeholder name <:+: x ++ (value ++ y)
  whole : '@' ∉ value → x ++ (value ++ y) = placeholder name

theorem exists_completion_nil (htwo : 2 ≤ name.length) : ∃ x y, Completion name [] x y := by
  have hlength := length_placeholder name
  have hwhole : (placeholder name).take 3 ++ ([] ++ (placeholder name).drop 3) =
      placeholder name := by
    rw [List.nil_append, List.take_append_drop]
  have hstart : ((placeholder name).take 3).length ≤ name.length + 1 := by
    rw [List.length_take]
    omega
  have hrest : ((placeholder name).drop 3).length ≤ name.length + 1 := by
    rw [List.length_drop]
    omega
  exact ⟨_, _, List.take_prefix _ _, hstart, List.drop_suffix _ _, hrest,
    ⟨[], [], by rw [hwhole, List.nil_append, List.append_nil]⟩, fun _ => hwhole⟩

/-- So do the texts around a part of the placeholder that does not end in a sign. -/
theorem exists_completion_of_infix {front : List Char} {c : Char} (hc : c ≠ '@')
    (h : front ++ [c] <:+: placeholder name) : ∃ x y, Completion name (front ++ [c]) x y := by
  obtain ⟨x, y, hxy⟩ := h
  have hplace : placeholder name = (x ++ front) ++ c :: y := by
    rw [← hxy]
    simp
  obtain ⟨hleft, hright⟩ := two_le_length_of_placeholder_eq hplace hc
  have hsum := congrArg List.length hplace
  simp only [length_placeholder, List.length_append, List.length_cons] at hsum hleft
  have hwhole : x ++ (front ++ [c] ++ y) = placeholder name := by
    rw [← hxy]
    simp
  exact ⟨x, y, ⟨_, hwhole⟩, by omega, ⟨x ++ (front ++ [c]), hxy⟩, by omega,
    ⟨[], [], by simp [← hwhole]⟩, fun _ => hwhole⟩

/-- A value that ends as the placeholder begins is completed behind. -/
theorem exists_completion_of_tail {front start : List Char} {c : Char} (hc : c ≠ '@')
    (hat : '@' ∈ front ++ (start ++ [c])) (h : start ++ [c] <+: placeholder name) :
    ∃ x y, Completion name (front ++ (start ++ [c])) x y := by
  obtain ⟨y, hy⟩ := h
  have hplace : placeholder name = start ++ c :: y := by
    rw [← hy]
    simp
  obtain ⟨hleft, -⟩ := two_le_length_of_placeholder_eq hplace hc
  have hsum := congrArg List.length hplace
  simp only [length_placeholder, List.length_append, List.length_cons] at hsum
  exact ⟨[], y, List.nil_prefix, Nat.zero_le _, ⟨_, hy⟩, by omega,
    ⟨front, [], by simp [← hy]⟩, fun hno => absurd hat hno⟩

/-- A value that begins as the placeholder ends, from the name on, is completed in front. -/
theorem exists_completion_of_head {s back : List Char} (hat : '@' ∈ s ++ back)
    (h : s <:+ placeholder name) (hlong : ¬ s <:+ ['@', '@']) :
    ∃ x y, Completion name (s ++ back) x y := by
  obtain ⟨x, hx⟩ := h
  have hshort : 2 < s.length := by
    by_contra hle
    have hsigns : ['@', '@'] <:+ placeholder name := ⟨'@' :: '@' :: name, rfl⟩
    refine hlong (List.suffix_of_suffix_length_le ⟨x, hx⟩ hsigns ?_)
    simpa using Nat.le_of_not_lt hle
  have hsum := congrArg List.length hx
  simp only [length_placeholder, List.length_append] at hsum
  exact ⟨x, [], ⟨s, hx⟩, by omega, List.nil_suffix, Nat.zero_le _,
    ⟨[], back, by simp [← hx]⟩, fun hno => absurd hat hno⟩

/-- A value that does not end in a sign is apart from a placeholder or completed to it. -/
theorem exists_completion (htwo : 2 ≤ name.length) (hend : ¬ ['@'] <:+ value)
    (h : ¬ Apart value (placeholder name)) : ∃ x y, Completion name value x y := by
  have hlast : ∀ front c, front ++ [c] = value → c ≠ '@' := by
    rintro front c rfl rfl
    exact hend (List.suffix_append front ['@'])
  by_cases hinside : value <:+: placeholder name
  · rcases List.eq_nil_or_concat' value with rfl | ⟨front, c, rfl⟩
    · exact exists_completion_nil htwo
    · exact exists_completion_of_infix (hlast front c rfl) hinside
  have hat : '@' ∈ value := by
    by_contra hat
    exact h (apart_of_notMem hat hinside)
  rcases not_apart_cases h with hin | haround | ⟨s, hne, hs, hword⟩ | ⟨s, hs, hword, hlong⟩
  · exact absurd hin hinside
  · exact ⟨[], [], List.nil_prefix, Nat.zero_le _, List.nil_suffix, Nat.zero_le _,
      by simpa using haround, fun hno => absurd hat hno⟩
  · obtain ⟨start, c, rfl⟩ := (List.eq_nil_or_concat' s).resolve_left hne
    obtain ⟨front, rfl⟩ := hs
    exact exists_completion_of_tail (hlast (front ++ start) c (List.append_assoc _ _ _)) hat hword
  · obtain ⟨back, rfl⟩ := hs
    exact exists_completion_of_head hat hword hlong

end

end DefineBundle.Text
