import DefineBundle.Bundle.Readable
import DefineBundle.Proofs.Text.Search
import Mathlib.Data.List.DropRight
import Mathlib.Order.Bounds.Basic

/-!
# Code in its place

Code takes the first place for it in a template, together with all blanks in front of that place.
What stands before and behind is kept, and the code is put in as it is, even where it looks like a
place itself; a template without a place is refused. Positions say which part of the template goes.
-/
namespace DefineBundle

namespace Text

/-- The positions of a text at which a word begins. -/
def occurrences (word cs : List Char) : Set Nat :=
  {k | word <+: cs.drop k}

/-- The positions from which a text has only blanks up to the given one. The least of them is where
the longest such run begins. -/
def blanksUpTo (cs : List Char) (k : Nat) : Set Nat :=
  {i | i ≤ k ∧ ∀ c ∈ (cs.take k).drop i, isBlank c = true}

section
variable {word cs before rest : List Char}

theorem infix_of_mem_occurrences {k : Nat} (h : k ∈ occurrences word cs) : word <:+: cs :=
  h.isInfix.trans (List.drop_suffix k cs).isInfix

theorem eq_of_mem_occurrences {k : Nat} (h : k ∈ occurrences word cs) :
    cs = cs.take k ++ (word ++ cs.drop (k + word.length)) := by
  have hword := List.prefix_iff_eq_append.mp h
  rw [List.drop_drop] at hword
  rw [hword, List.take_append_drop]

theorem isLeast_of_splitFirst? (h : splitFirst? word cs = some (before, rest)) :
    IsLeast (occurrences word cs) before.length := by
  have hcs := eq_of_splitFirst? h
  constructor
  · change word <+: cs.drop before.length
    rw [hcs, List.drop_left]
    exact List.prefix_append word rest
  · intro l hl
    obtain ⟨front, back, hsplit, hback⟩ :=
      exists_splitFirst? word (cs.take l) (cs.drop (l + word.length))
    rw [← eq_of_mem_occurrences hl, h] at hsplit
    cases hsplit
    have hlength := congrArg List.length hcs
    have hle := hback.length_le
    simp only [List.length_append, List.length_drop] at hlength hle
    omega

theorem splitFirst?_eq_some_iff_isLeast : splitFirst? word cs = some (before, rest) ↔
    ∃ k, IsLeast (occurrences word cs) k ∧ before = cs.take k ∧
      rest = cs.drop (k + word.length) := by
  constructor
  · intro h
    refine ⟨before.length, isLeast_of_splitFirst? h, ?_, ?_⟩
    · rw [eq_of_splitFirst? h, List.take_left]
    · rw [eq_of_splitFirst? h, ← List.drop_drop, List.drop_left, List.drop_left]
  · rintro ⟨k, hk, rfl, rfl⟩
    cases hsplit : splitFirst? word cs with
    | none => exact absurd (infix_of_mem_occurrences hk.1) (splitFirst?_eq_none_iff.mp hsplit)
    | some parts =>
        obtain ⟨front, back⟩ := parts
        obtain rfl := hk.unique (isLeast_of_splitFirst? hsplit)
        have hcs := eq_of_splitFirst? hsplit
        rw [hcs, ← List.drop_drop, List.take_left, List.drop_left, List.drop_left]

end

theorem trimEnd_prefix_self (cs : List Char) : trimEnd cs <+: cs :=
  List.rdropWhile_prefix isBlank cs

theorem trimEnd_append_of_blank {gap : List Char} (h : ∀ b ∈ gap, isBlank b = true)
    (cs : List Char) : trimEnd (cs ++ gap) = trimEnd cs := by
  rw [trimEnd, List.reverse_append, List.dropWhile_append_of_pos (by simpa using h), ← trimEnd]

theorem drop_length_trimEnd (cs : List Char) :
    cs.drop (trimEnd cs).length = cs.rtakeWhile isBlank := by
  have hparts : trimEnd cs ++ cs.rtakeWhile isBlank = cs := by
    rw [trimEnd, List.rtakeWhile, ← List.reverse_append, List.takeWhile_append_dropWhile,
      List.reverse_reverse]
  have hdrop := List.prefix_iff_eq_append.mp (trimEnd_prefix_self cs)
  exact List.append_cancel_left (hdrop.trans hparts.symm)

/-- Trimming takes the longest run of blanks in front of a position. -/
theorem isLeast_length_trimEnd (cs : List Char) (k : Nat) :
    IsLeast (blanksUpTo cs k) (trimEnd (cs.take k)).length := by
  constructor
  · refine ⟨(trimEnd_prefix_self _).length_le.trans (List.length_take_le k cs), fun c hc => ?_⟩
    rw [drop_length_trimEnd] at hc
    exact List.mem_rtakeWhile_imp hc
  · rintro i ⟨-, hblank⟩
    rw [← List.take_append_drop i (cs.take k), trimEnd_append_of_blank hblank]
    exact (trimEnd_prefix_self _).length_le.trans (List.length_take_le i _)

theorem take_length_trimEnd (cs : List Char) (k : Nat) :
    cs.take (trimEnd (cs.take k)).length = trimEnd (cs.take k) :=
  (List.prefix_iff_eq_take.mp ((trimEnd_prefix_self _).trans (List.take_prefix k cs))).symm

end Text

namespace Bundle

open DefineBundle.Text

theorem insertCode?_eq_none_iff {loader code : List Char} :
    Loader.insertCode? loader code = none ↔ ¬ Loader.codePlace <:+: loader := by
  rw [Loader.insertCode?, Option.map_eq_none_iff, splitFirst?_eq_none_iff]

theorem insertCode?_eq_some_iff {loader code bundle : List Char} :
    Loader.insertCode? loader code = some bundle ↔
      ∃ k i, IsLeast (occurrences Loader.codePlace loader) k ∧ IsLeast (blanksUpTo loader k) i ∧
        bundle = loader.take i ++ code ++ loader.drop (k + Loader.codePlace.length) := by
  rw [Loader.insertCode?, Option.map_eq_some_iff]
  constructor
  · rintro ⟨⟨before, rest⟩, hsplit, rfl⟩
    obtain ⟨k, hk, rfl, rfl⟩ := splitFirst?_eq_some_iff_isLeast.mp hsplit
    exact ⟨k, _, hk, isLeast_length_trimEnd loader k, by rw [take_length_trimEnd]⟩
  · rintro ⟨k, i, hk, hi, rfl⟩
    obtain rfl := hi.unique (isLeast_length_trimEnd loader k)
    rw [take_length_trimEnd]
    exact ⟨_, splitFirst?_eq_some_iff_isLeast.mpr ⟨k, hk, rfl, rfl⟩, rfl⟩

/-- Only the first place is taken, and what the code holds is not read. -/
example : Loader.insertCode? "a;\n\n\t$code();\n$code();".toList "$0 $code();".toList =
    some "a;$0 $code();\n$code();".toList := by
  decide

/-- A template is refused exactly when it has no place for code. Otherwise the bundle is the
template up to the blanks in front of the first place, any code as it is, and the template from the
end of that place on. -/
theorem insertion_verbatim (name : String) (template code : List Char) :
    (∀ f, placed name (Loader.insertCode? template code) = .error f ↔
        ¬ "$code();".toList <:+: template ∧ f = noPlace name) ∧
      ∀ bundle, placed name (Loader.insertCode? template code) = .ok bundle ↔
        ∃ k i, IsLeast (occurrences "$code();".toList template) k ∧
          IsLeast (blanksUpTo template k) i ∧
          bundle = template.take i ++ code ++ template.drop (k + "$code();".length) := by
  have hplace : Loader.codePlace = "$code();".toList := by decide
  rw [← hplace]
  refine ⟨fun f => ?_, fun bundle => ?_⟩
  · rw [placed_eq_error_iff, insertCode?_eq_none_iff]
  · rw [placed_eq_ok_iff, insertCode?_eq_some_iff]
    rfl

end Bundle

end DefineBundle
