import DefineBundle.Text.Search

/-!
# Pieces of texts

A text is split into pieces at a separator and joined again. The pieces hold no separator, and such
pieces are found again where they were joined.
-/
namespace DefineBundle.Text

theorem splitOn_eq (separator : Char) (cs : List Char) :
    splitOn separator cs = cs.splitOn separator := by
  induction cs with
  | nil => simp [splitOn]
  | cons c cs ih =>
      rw [List.splitOn_cons_eq_if_modifyHead, splitOn, ih]
      have hne := List.splitOn_ne_nil separator cs
      cases hs : cs.splitOn separator with
      | nil => exact absurd hs hne
      | cons piece pieces => rfl

theorem splitOn_ne_nil (separator : Char) (cs : List Char) : splitOn separator cs ≠ [] := by
  rw [splitOn_eq]
  exact List.splitOn_ne_nil separator cs

theorem joinWith_eq (separator : List Char) (ps : List (List Char)) :
    joinWith separator ps = separator.intercalate ps := by
  induction ps with
  | nil => rfl
  | cons p ps ih =>
      cases ps with
      | nil => simp [joinWith]
      | cons q qs =>
          rw [List.intercalate_cons_cons, ← ih]
          rfl

theorem joinWith_append {ps qs : List (List Char)} (hps : ps ≠ []) (hqs : qs ≠ [])
    (separator : List Char) :
    joinWith separator (ps ++ qs) =
      joinWith separator ps ++ (separator ++ joinWith separator qs) := by
  induction ps with
  | nil => exact absurd rfl hps
  | cons p ps ih =>
      cases ps with
      | nil =>
          obtain ⟨q, rest, rfl⟩ := List.exists_cons_of_ne_nil hqs
          simp [joinWith]
      | cons r ps =>
          have hrest := ih (by simp)
          simp only [List.cons_append, joinWith] at hrest ⊢
          rw [hrest]
          simp

theorem joinWith_concat {ps : List (List Char)} (h : ps ≠ []) (separator p : List Char) :
    joinWith separator (ps ++ [p]) = joinWith separator ps ++ (separator ++ p) :=
  joinWith_append h (List.cons_ne_nil p []) separator

theorem mem_joinWith {separator : List Char} {ps : List (List Char)} {c : Char}
    (h : c ∈ joinWith separator ps) : c ∈ separator ∨ ∃ p ∈ ps, c ∈ p := by
  fun_induction joinWith separator ps with
  | case1 => cases h
  | case2 p => exact .inr ⟨p, by simp, h⟩
  | case3 p ps _ ih =>
      simp only [List.mem_append] at h
      rcases h with (h | h) | h
      · exact .inr ⟨p, by simp, h⟩
      · exact .inl h
      · rcases ih h with hc | ⟨q, hq, hc⟩
        · exact .inl hc
        · exact .inr ⟨q, List.mem_cons_of_mem _ hq, hc⟩

theorem any_joinWith {f : Char → Bool} {separator : List Char}
    (h : separator.any f = false) (ps : List (List Char)) :
    (joinWith separator ps).any f = ps.any fun p => p.any f := by
  induction ps with
  | nil => rfl
  | cons p ps ih =>
      cases ps with
      | nil => exact (Bool.or_false _).symm
      | cons q ps =>
          change (p ++ separator ++ joinWith separator (q :: ps)).any f = _
          rw [List.any_append, List.any_append, h, Bool.or_false, ih]
          rfl

theorem splitOn_append_cons (separator : Char) (cs rest : List Char) :
    splitOn separator (cs ++ separator :: rest) =
      splitOn separator cs ++ splitOn separator rest := by
  induction cs with
  | nil => simp [splitOn]
  | cons c cs ih =>
      rw [List.cons_append, splitOn, splitOn, ih]
      split
      · rfl
      · cases hs : splitOn separator cs with
        | nil => exact absurd hs (splitOn_ne_nil separator cs)
        | cons piece pieces => rfl

theorem splitOn_joinWith {separator : Char} {ps : List (List Char)} (hne : ps ≠ [])
    (h : ∀ p ∈ ps, separator ∉ p) : splitOn separator (joinWith [separator] ps) = ps := by
  rw [splitOn_eq, joinWith_eq]
  exact List.splitOn_intercalate separator h hne

theorem not_mem_of_mem_splitOn {separator : Char} {cs p : List Char}
    (hp : p ∈ splitOn separator cs) : separator ∉ p := by
  induction cs generalizing p with
  | nil => simp_all [splitOn]
  | cons c cs ih =>
      unfold splitOn at hp
      split at hp
      · rcases List.mem_cons.mp hp with rfl | hp
        · exact List.not_mem_nil
        · exact ih hp
      · rename_i hc
        have hne : separator ≠ c := fun he => hc (by simp [he])
        split at hp
        · rename_i piece pieces hs
          rcases List.mem_cons.mp hp with rfl | hp
          · have hpiece := ih (hs ▸ List.mem_cons_self)
            simp [hne, hpiece]
          · exact ih (hs ▸ List.mem_cons_of_mem _ hp)
        · rw [List.mem_singleton.mp hp]
          simpa using hne

theorem joinWith_splitOn (separator : Char) (cs : List Char) :
    joinWith [separator] (splitOn separator cs) = cs := by
  rw [joinWith_eq, splitOn_eq]
  exact List.intercalate_splitOn separator

/-- Pieces with more text behind the last one. -/
def extendLast (more : List Char) : List (List Char) → List (List Char)
  | [] => [more]
  | [p] => [p ++ more]
  | p :: q :: ps => p :: extendLast more (q :: ps)

theorem splitOn_of_notMem {separator : Char} {cs : List Char} (h : separator ∉ cs) :
    splitOn separator cs = [cs] :=
  splitOn_joinWith (List.cons_ne_nil cs []) (by simpa)

theorem splitOn_append {separator : Char} {more : List Char} (h : separator ∉ more)
    (cs : List Char) : splitOn separator (cs ++ more) = extendLast more (splitOn separator cs) := by
  induction cs with
  | nil => exact splitOn_of_notMem h
  | cons c cs ih =>
      obtain ⟨p, ps, hps⟩ := List.exists_cons_of_ne_nil (splitOn_ne_nil separator cs)
      rw [List.cons_append, splitOn, splitOn, ih, hps]
      split
      · rfl
      · cases ps <;> rfl

theorem mem_extendLast {more s : List Char} {ps : List (List Char)} (hne : ps ≠ [])
    (h : s ∈ extendLast more ps) : s ∈ ps ∨ ∃ p ∈ ps, s = p ++ more := by
  fun_induction extendLast more ps with
  | case1 => exact absurd rfl hne
  | case2 p => exact .inr ⟨p, List.mem_cons_self, List.mem_singleton.mp h⟩
  | case3 p q ps ih =>
      rcases List.mem_cons.mp h with rfl | h
      · exact .inl List.mem_cons_self
      · rcases ih (by simp) h with h | ⟨p', hp', he⟩
        · exact .inl (List.mem_cons_of_mem _ h)
        · exact .inr ⟨p', List.mem_cons_of_mem _ hp', he⟩

theorem subset_of_mem_splitOn {separator : Char} {cs p : List Char}
    (h : p ∈ splitOn separator cs) : p ⊆ cs := by
  induction cs generalizing p with
  | nil => simp_all [splitOn]
  | cons c cs ih =>
      obtain ⟨q, qs, hqs⟩ := List.exists_cons_of_ne_nil (splitOn_ne_nil separator cs)
      rw [hqs] at ih
      rw [splitOn, hqs] at h
      split at h
      · rcases List.mem_cons.mp h with rfl | h
        · exact List.nil_subset _
        · exact List.subset_cons_of_subset _ (ih h)
      · rcases List.mem_cons.mp h with rfl | h
        · exact List.cons_subset_cons _ (ih List.mem_cons_self)
        · exact List.subset_cons_of_subset _ (ih (List.mem_cons_of_mem _ h))

end DefineBundle.Text
