import DefineBundle.Module.Location

/-!
# The owners of ids

What it takes for an id to lie within a namespace or below it, in terms of its text, and which
library owns an id: one with a name as long as that of any other library that the id lies in.
-/
namespace DefineBundle.Layout

open DefineBundle.Text

theorem isWithin_iff {ns id : String} : isWithin ns id = true ↔
    ∃ rest, id.toList = ns.toList ++ rest ∧ ∀ c, rest.head? = some c → isSeparator c = true := by
  unfold isWithin
  split
  · rename_i h
    exact iff_of_true rfl ⟨[], after?_eq_some_iff.mp h, by simp⟩
  · rename_i c rest h
    rw [after?_eq_some_iff] at h
    constructor
    · exact fun hc => ⟨c :: rest, h, by simpa using hc⟩
    · rintro ⟨rest', he, hrest'⟩
      obtain rfl := List.append_cancel_left (h.symm.trans he)
      exact hrest' c rfl
  · rename_i h
    refine iff_of_false Bool.false_ne_true ?_
    rintro ⟨rest, he, -⟩
    rw [after?_eq_some_iff.mpr he] at h
    cases h

theorem below?_eq_some_iff {ns id : String} {rest : List Char} : below? ns id = some rest ↔
    rest ≠ [] ∧ ∃ c, isSeparator c = true ∧ id.toList = ns.toList ++ c :: rest := by
  unfold below?
  split
  · rename_i c d more h
    rw [after?_eq_some_iff] at h
    rw [h]
    by_cases hc : isSeparator c = true
    · rw [if_pos hc, Option.some.injEq]
      constructor
      · rintro rfl
        exact ⟨by simp, c, hc, rfl⟩
      · rintro ⟨-, c', -, he⟩
        exact (List.cons.inj (List.append_cancel_left he)).2
    · rw [if_neg hc]
      refine iff_of_false nofun ?_
      rintro ⟨-, c', hc', he⟩
      exact hc ((List.cons.inj (List.append_cancel_left he)).1 ▸ hc')
  · rename_i h
    refine iff_of_false nofun ?_
    rintro ⟨hne, c, -, he⟩
    obtain ⟨d, more, rfl⟩ := List.exists_cons_of_ne_nil hne
    exact h c d more (after?_eq_some_iff.mpr he)

theorem mem_of_foldl_longer {es : List (String × Library)} {best : Option (String × Library)}
    {e : String × Library} (h : es.foldl longer best = some e) : best = some e ∨ e ∈ es := by
  induction es generalizing best with
  | nil => exact .inl h
  | cons e' es ih =>
      rcases ih h with hbest | he
      · unfold longer at hbest
        split at hbest
        · split at hbest
          · exact .inr (by simp [Option.some.inj hbest])
          · exact .inl hbest
        · exact .inr (by simp [Option.some.inj hbest])
      · exact .inr (List.mem_cons_of_mem _ he)

theorem exists_longer (best : Option (String × Library)) (e : String × Library) :
    ∃ b, longer best e = some b ∧ e.1.length ≤ b.1.length ∧
      ∀ b', best = some b' → b'.1.length ≤ b.1.length := by
  unfold longer
  split
  · rename_i b
    split
    · rename_i hle
      exact ⟨e, rfl, Nat.le_refl _, by simpa using hle⟩
    · rename_i hlt
      exact ⟨b, rfl, Nat.le_of_not_le hlt, by simp⟩
  · exact ⟨e, rfl, Nat.le_refl _, by simp⟩

theorem exists_foldl_longer {es : List (String × Library)} (best : Option (String × Library))
    (h : best.isSome = true ∨ es ≠ []) : ∃ e, es.foldl longer best = some e ∧
      (∀ b, best = some b → b.1.length ≤ e.1.length) ∧ ∀ e' ∈ es, e'.1.length ≤ e.1.length := by
  induction es generalizing best with
  | nil =>
      obtain ⟨b, rfl⟩ := Option.isSome_iff_exists.mp (h.resolve_right (by simp))
      exact ⟨b, rfl, by simp, by simp⟩
  | cons e es ih =>
      obtain ⟨b, hb, hle, hbest⟩ := exists_longer best e
      obtain ⟨found, hfound, hfirst, hrest⟩ := ih _ (.inl (Option.isSome_of_eq_some hb))
      have hkept := hfirst b hb
      exact ⟨found, hfound, fun b' hb' => Nat.le_trans (hbest b' hb') hkept,
        List.forall_mem_cons.mpr ⟨Nat.le_trans hle hkept, hrest⟩⟩

section
variable {l : Layout} {id id' : String} {e : String × Library}

/-- The owner of an id is a library that the id lies in, and none of these has a longer name. -/
theorem libraryFor?_spec (h : l.libraryFor? id = some e) :
    e ∈ l.libraries.entries ∧ isWithin e.1 id = true ∧
      ∀ e' ∈ l.libraries.entries, isWithin e'.1 id = true → e'.1.length ≤ e.1.length := by
  have hmem := (mem_of_foldl_longer h).resolve_left nofun
  obtain ⟨found, hfound, -, hlongest⟩ :=
    exists_foldl_longer none (.inr (List.ne_nil_of_mem hmem))
  obtain rfl : found = e := Option.some.inj (hfound.symm.trans h)
  obtain ⟨hentry, hwithin⟩ := List.mem_filter.mp hmem
  exact ⟨hentry, hwithin, fun e' he' hw => hlongest e' (List.mem_filter.mpr ⟨he', hw⟩)⟩

theorem exists_libraryFor? (he : e ∈ l.libraries.entries) (h : isWithin e.1 id = true) :
    ∃ owner, l.libraryFor? id = some owner := by
  have hmem : e ∈ l.libraries.entries.filter fun e => isWithin e.1 id :=
    List.mem_filter.mpr ⟨he, h⟩
  obtain ⟨owner, howner, -⟩ :=
    exists_foldl_longer none (.inr (List.ne_nil_of_mem hmem))
  exact ⟨owner, howner⟩

theorem libraryFor?_congr
    (h : ∀ e ∈ l.libraries.entries, isWithin e.1 id = isWithin e.1 id') :
    l.libraryFor? id = l.libraryFor? id' := by
  unfold libraryFor?
  rw [List.filter_congr h]

/-- The base directory of an id is that of a library or that of the build. -/
theorem baseFor_cases (l : Layout) (id : String) : l.baseFor id = l.baseDirectory ∨
    ∃ e ∈ l.libraries.entries, l.baseFor id = e.2.baseDirectory := by
  unfold baseFor
  cases h : l.libraryFor? id with
  | none => exact .inl rfl
  | some e => exact .inr ⟨e, (libraryFor?_spec h).1, rfl⟩

/-- The root namespace of an id is that of a library or that of the build. -/
theorem namespaceFor_cases (l : Layout) (id : String) : l.namespaceFor id = l.rootNamespace ∨
    ∃ e ∈ l.libraries.entries, l.namespaceFor id = e.2.rootNamespace := by
  unfold namespaceFor
  cases h : l.libraryFor? id with
  | none => exact .inl rfl
  | some e => exact .inr ⟨e, (libraryFor?_spec h).1, rfl⟩

end

end DefineBundle.Layout
