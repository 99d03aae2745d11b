import Mathlib.Data.List.Basic
import Mathlib.Data.List.Induction

/-!
# First places

Several elements of a list may be the same one. Where it stands first is what counts for the order
of files and for which of several definitions is kept, and leaving out what comes again does not
change it.
-/
namespace DefineBundle

variable {α : Type} [BEq α] [LawfulBEq α] {xs ys : List α} {a b : α}

theorem idxOf_le_of_getElem? {i : Nat} (h : xs[i]? = some a) : xs.idxOf a ≤ i := by
  by_contra hlt
  obtain ⟨hi, rfl⟩ := List.getElem?_eq_some_iff.mp h
  have hne : (xs[i] == xs[i]) = false :=
    List.not_of_lt_findIdx (p := (· == xs[i])) (by simpa [List.idxOf] using hlt)
  simp at hne

/-- An element comes first before another if it stands somewhere in front of all its places. -/
theorem idxOf_lt_idxOf_iff (ha : a ∈ xs) (hb : b ∈ xs) :
    xs.idxOf a < xs.idxOf b ↔
      ∃ i : Nat, xs[i]? = some a ∧ ∀ j : Nat, xs[j]? = some b → i < j := by
  constructor
  · intro h
    refine ⟨xs.idxOf a, List.getElem?_idxOf ha, fun j hj => ?_⟩
    have hle : xs.idxOf b ≤ j := idxOf_le_of_getElem? hj
    omega
  · rintro ⟨i, hi, hall⟩
    have hlt : i < xs.idxOf b := hall _ (List.getElem?_idxOf hb)
    have hle : xs.idxOf a ≤ i := idxOf_le_of_getElem? hi
    omega

/-- What stands in front of another element stands in the part before it. -/
theorem idxOf_lt_idxOf_append_cons (hb : b ∉ xs) :
    (xs ++ b :: ys).idxOf a < (xs ++ b :: ys).idxOf b ↔ a ∈ xs := by
  have hindex : (xs ++ b :: ys).idxOf b = xs.length := by simp [List.idxOf_append, hb]
  rw [hindex, List.idxOf_append]
  split
  · rename_i ha
    exact iff_of_true (List.idxOf_lt_length_of_mem ha) ha
  · rename_i ha
    exact iff_of_false (by omega) ha

theorem eraseDups_concat (xs : List α) (x : α) :
    (xs ++ [x]).eraseDups = xs.eraseDups ++ if xs.elem x then [] else [x] := by
  rw [List.eraseDups_append]
  congr 1
  by_cases h : x ∈ xs
  · simp [List.removeAll, h]
  · simp [List.removeAll, h, List.eraseDups_cons]

theorem nodup_eraseDups (xs : List α) : xs.eraseDups.Nodup := by
  induction xs using List.reverseRecOn with
  | nil => exact .nil
  | append_singleton xs x ih =>
      rw [eraseDups_concat]
      split
      · rwa [List.append_nil]
      · rename_i hx
        have hnew : x ∉ xs := by simpa using hx
        simpa [List.nodup_append, ih] using fun y (hy : y ∈ xs) (he : y = x) => hnew (he ▸ hy)

theorem idxOf_eraseDups_lt_iff (ha : a ∈ xs) (hb : b ∈ xs) :
    xs.eraseDups.idxOf a < xs.eraseDups.idxOf b ↔ xs.idxOf a < xs.idxOf b := by
  induction xs using List.reverseRecOn with
  | nil => cases ha
  | append_singleton xs x ih =>
      have hlt : ∀ {c}, c ∈ xs → xs.eraseDups.idxOf c < xs.eraseDups.length := fun hc =>
        List.idxOf_lt_length_of_mem (List.mem_eraseDups.mpr hc)
      have hlt' : ∀ {c}, c ∈ xs → xs.idxOf c < xs.length := List.idxOf_lt_length_of_mem
      rw [eraseDups_concat]
      simp only [List.idxOf_append, List.mem_eraseDups]
      by_cases hxa : a ∈ xs
      · by_cases hxb : b ∈ xs
        · simpa [hxa, hxb] using ih hxa hxb
        · have h1 := hlt hxa
          have h2 := hlt' hxa
          simp only [hxa, hxb, if_true, if_false]
          omega
      · have hne : ∀ {c}, c ∈ xs ++ [x] → c ∉ xs → c = x := by
          intro c hc hno
          simpa [hno] using hc
        obtain rfl := hne ha hxa
        by_cases hxb : b ∈ xs
        · have h1 := hlt hxb
          have h2 := hlt' hxb
          simp only [hxa, hxb, if_true, if_false]
          omega
        · obtain rfl := hne hb hxb
          simp

end DefineBundle
