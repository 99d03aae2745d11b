import DefineBundle.Proofs.Bundle.ShortNames
import DefineBundle.Proofs.Text.Identifiers
import DefineBundle.Script.Grammar.Goal
import Mathlib.Algebra.Group.Nat.Defs
import Mathlib.Data.List.Dedup

/-!
# Names that a script may declare

The name of an id is the first of its candidates that no id before it has: the id made into a name,
and then the same with one number after another. No more candidates are refused than there are
names, so the numbers stay small, and what a name is depends on the ids before it only. Each
candidate is one word of a script and no word that a script reserves, wherever it stands.
-/
namespace DefineBundle.Bundle.ShortNames

open DefineBundle.Script DefineBundle.Text

variable {names : ShortNames} {id name : String} {ids : List String} {ms : List ModuleRecord}

/-- What an id may be called, in the order in which it is tried. -/
def candidate (id : String) : Nat → String
  | 0 => plainName id
  | n + 1 => numbered (plainName id) (n + 1)

theorem numbered_ne (name : String) (n : Nat) : numbered name n ≠ name := by
  intro h
  have hlength := congrArg (fun s => s.toList.length) h
  simp [toList_numbered] at hlength

theorem candidate_injective (id : String) : Function.Injective (candidate id) := by
  intro n k h
  cases n with
  | zero =>
      cases k with
      | zero => rfl
      | succ k => exact absurd h.symm (numbered_ne _ _)
  | succ n =>
      cases k with
      | zero => exact absurd h (numbered_ne _ _)
      | succ k => exact numbered_injective _ h

/-- A search stops at the first number that is free, if it does not give up before. -/
theorem exists_freeNumber (names : ShortNames) (name : String) (fuel n : Nat) :
    ∃ k, names.freeNumber name fuel n = numbered name (n + k) ∧
      ∀ j < k, names.isTaken (numbered name (n + j)) = true := by
  induction fuel generalizing n with
  | zero => exact ⟨0, rfl, fun j hj => absurd hj (Nat.not_lt_zero j)⟩
  | succ fuel ih =>
      rw [freeNumber]
      split
      · rename_i htaken
        obtain ⟨k, hfound, hbefore⟩ := ih (n + 1)
        refine ⟨k + 1, ?_, fun j hj => ?_⟩
        · rw [hfound, Nat.add_right_comm, Nat.add_assoc]
        · cases j with
          | zero => exact htaken
          | succ j =>
              have hlater := hbefore j (Nat.lt_of_succ_lt_succ hj)
              rwa [Nat.add_right_comm, Nat.add_assoc] at hlater
      · exact ⟨0, rfl, fun j hj => absurd hj (Nat.not_lt_zero j)⟩

/-- A new name is the first candidate that is not taken, and it has no larger number than there are
names. -/
theorem exists_nameFor (names : ShortNames) (id : String) :
    ∃ n ≤ names.length, names.nameFor id = candidate id n ∧
      ∀ k < n, candidate id k ∈ names.map Prod.snd := by
  obtain ⟨n, hname, hbefore⟩ : ∃ n, names.nameFor id = candidate id n ∧
      ∀ k < n, candidate id k ∈ names.map Prod.snd := by
    unfold nameFor
    dsimp only
    split
    · rename_i htaken
      obtain ⟨k, hfound, hbefore⟩ := exists_freeNumber names (plainName id) names.length 1
      rw [Nat.add_comm] at hfound
      refine ⟨k + 1, hfound, fun j hj => isTaken_iff.mp ?_⟩
      cases j with
      | zero => exact htaken
      | succ j =>
          have hlater := hbefore j (Nat.lt_of_succ_lt_succ hj)
          rwa [Nat.add_comm] at hlater
    · exact ⟨0, rfl, fun k hk => absurd hk (Nat.not_lt_zero k)⟩
  refine ⟨n, ?_, hname, hbefore⟩
  -- the candidates that were refused are different names, and all of them are taken
  have hsub : (List.range n).map (candidate id) ⊆ names.map Prod.snd := by
    intro x hx
    obtain ⟨k, hk, rfl⟩ := List.mem_map.mp hx
    exact hbefore k (List.mem_range.mp hk)
  have hlength := (List.nodup_range.map (candidate_injective id)).length_le_of_subset hsub
  rwa [List.length_map, List.length_map, List.length_range] at hlength

theorem get?_append_of_get? {more : ShortNames} (h : names.get? id = some name) :
    (names ++ more : ShortNames).get? id = some name := by
  obtain ⟨e, hfound, rfl⟩ := Option.map_eq_some_iff.mp h
  rw [get?, List.find?_append, hfound]
  rfl

theorem exists_add_eq_append (names : ShortNames) (id : String) :
    ∃ more, names.add id = names ++ more := by
  unfold add
  split
  · exact ⟨[], (List.append_nil _).symm⟩
  · exact ⟨_, rfl⟩

theorem exists_foldl_add_eq_append (names : ShortNames) (ids : List String) :
    ∃ more, ids.foldl add names = names ++ more := by
  induction ids generalizing names with
  | nil => exact ⟨[], (List.append_nil _).symm⟩
  | cons id ids ih =>
      obtain ⟨first, hfirst⟩ := exists_add_eq_append names id
      obtain ⟨more, hmore⟩ := ih (names.add id)
      exact ⟨first ++ more, by rw [List.foldl_cons, hmore, hfirst, List.append_assoc]⟩

theorem get?_foldl_add (h : names.get? id = some name) (ids : List String) :
    (ids.foldl add names : ShortNames).get? id = some name := by
  obtain ⟨more, hmore⟩ := exists_foldl_add_eq_append names ids
  rw [hmore]
  exact get?_append_of_get? h

theorem nodup_ids_add (h : (names.map Prod.fst).Nodup) (id : String) :
    ((names.add id).map Prod.fst).Nodup := by
  unfold add
  split
  · exact h
  · rename_i hunknown
    have hnew : id ∉ names.map Prod.fst :=
      get?_eq_none_iff.mp (Option.not_isSome_iff_eq_none.mp hunknown)
    rw [List.map_append, List.map_singleton]
    refine List.nodup_append.mpr ⟨h, List.nodup_singleton _, fun a ha b hb he => hnew ?_⟩
    obtain rfl : b = id := List.mem_singleton.mp hb
    exact he ▸ ha

theorem nodup_ids_foldl_add (h : (names.map Prod.fst).Nodup) (ids : List String) :
    ((ids.foldl add names).map Prod.fst).Nodup := by
  induction ids generalizing names with
  | nil => exact h
  | cons id ids ih => exact ih (nodup_ids_add h id)

theorem nodup_ids (ids : List String) : ((ids.foldl add [] : ShortNames).map Prod.fst).Nodup :=
  nodup_ids_foldl_add (show (([] : ShortNames).map Prod.fst).Nodup from List.nodup_nil) ids

theorem mem_ids_foldl_add : id ∈ (ids.foldl add []).map Prod.fst ↔ id ∈ ids := by
  have hmem := (foldl_add ids isProper_nil).2 id
  rwa [List.map_nil, or_iff_right List.not_mem_nil] at hmem

theorem length_foldl_add_le (ids : List String) : (ids.foldl add []).length ≤ ids.dedup.length := by
  have hsub : (ids.foldl add []).map Prod.fst ⊆ ids.dedup := fun x hx =>
    List.mem_dedup.mpr (mem_ids_foldl_add.mp hx)
  have hlength := (nodup_ids ids).length_le_of_subset hsub
  rwa [List.length_map] at hlength

theorem get?_eq_some_of_mem (h : (names.map Prod.fst).Nodup) (hmem : (id, name) ∈ names) :
    names.get? id = some name := by
  cases hget : names.get? id with
  | none => exact absurd (List.mem_map_of_mem hmem) (get?_eq_none_iff.mp hget)
  | some other =>
      have he := List.inj_on_of_nodup_map h (mem_of_get? hget) hmem rfl
      exact congrArg some (Prod.mk.inj he).2

theorem exists_toList_candidate (id : String) (n : Nat) :
    ∃ cs, (candidate id n).toList = '_' :: cs ∧ cs.all isNamePart = true := by
  cases n with
  | zero => exact ⟨_, by rw [candidate, plainName, String.toList_ofList],
      all_isNamePart_legitimize id.toList⟩
  | succ n =>
      refine ⟨legitimize id.toList ++ '$' :: Nat.toDigits 10 (n + 1), ?_, ?_⟩
      · rw [candidate, toList_numbered, plainName, String.toList_ofList, List.cons_append]
      · rw [List.all_append, all_isNamePart_legitimize, List.all_cons, Bool.true_and]
        have hdigits : (Nat.toDigits 10 (n + 1)).all isNamePart = true :=
          List.all_eq_true.mpr fun c hc =>
            isNamePart_of_isDigit (Nat.isDigit_of_mem_toDigits (by decide) (by decide) hc)
        rw [hdigits]
        rfl

/-- A name that a script can declare anywhere: an underscore and characters that continue a name,
which are read as one name that no scope reserves. -/
structure IsLegal (name : String) : Prop where
  head : name.toList.head? = some '_'
  isIdentifier : isIdentifier name.toList = true
  next? {rest : List Char} (h : EndsName rest) :
    Token.next? (name.toList ++ rest) = some (.name name false, rest)
  admits (s : Scope) : s.admits name = true

theorem isLegal_candidate (id : String) (n : Nat) : IsLegal (candidate id n) := by
  obtain ⟨cs, hcs, hparts⟩ := exists_toList_candidate id n
  have hname : candidate id n = String.ofList ('_' :: cs) := by
    rw [← hcs, String.ofList_toList]
  have hfree : ∀ w ∈ "yield" :: "await" :: reservedWords, w.toList.head? ≠ some '_' := by
    decide
  have hne : ∀ w ∈ "yield" :: "await" :: reservedWords, candidate id n ≠ w := by
    rintro w hw rfl
    exact hfree _ hw (by rw [hcs]; rfl)
  refine ⟨by rw [hcs]; rfl, ?_, fun h => ?_, fun s => ?_⟩
  · rw [hcs, Text.isIdentifier, hparts]
    rfl
  · rw [hcs, hname]
    exact Token.next?_underscore hparts h
  · have hreserved : candidate id n ∉ reservedWords := fun hmem =>
      hne _ (List.mem_cons_of_mem _ (List.mem_cons_of_mem _ hmem)) rfl
    simp [Scope.admits, hreserved, hne "yield" (by simp), hne "await" (by simp)]

theorem length_dedup_le {front ids : List String} (h : front ⊆ ids) :
    front.dedup.length ≤ ids.dedup.length :=
  front.nodup_dedup.length_le_of_subset fun _ hx =>
    List.mem_dedup.mpr (h (List.mem_dedup.mp hx))

theorem IsProper.eq_of_get? {other : String} (h : IsProper names) (hget : names.get? id = some name)
    (hother : names.get? other = some name) : other = id :=
  (Prod.mk.inj (List.inj_on_of_nodup_map h.nodup (mem_of_get? hother) (mem_of_get? hget) rfl)).1

/-- The name of an id is its first candidate that is not the name of an id before it. -/
theorem exists_get?_ofModules {before after : List String}
    (hms : mentioned ms = before ++ id :: after)
    (hnew : id ∉ before) :
    ∃ n ≤ before.dedup.length, (ofModules ms).get? id = some (candidate id n) ∧
      (∀ k < n, ∃ other ∈ before, (ofModules ms).get? other = some (candidate id k)) ∧
      ∀ other ∈ before, (ofModules ms).get? other ≠ some (candidate id n) := by
  have hnone : (before.foldl add [] : ShortNames).get? id = none :=
    get?_eq_none_iff.mpr fun hmem => hnew (mem_ids_foldl_add.mp hmem)
  have hadd : (before.foldl add [] : ShortNames).add id =
      before.foldl add [] ++ [(id, nameFor (before.foldl add []) id)] := by
    rw [add, hnone]
    rfl
  have hall : ofModules ms = after.foldl add (add (before.foldl add []) id) := by
    rw [ofModules, hms, List.foldl_append, List.foldl_cons]
  obtain ⟨n, hn, hname, hbefore⟩ := exists_nameFor (before.foldl add []) id
  have hget : (ofModules ms).get? id = some (candidate id n) := by
    rw [hall]
    refine get?_foldl_add (get?_eq_some_of_mem ?_ ?_) after
    · exact nodup_ids_add (nodup_ids before) id
    · rw [hadd, hname]
      exact List.mem_append_right _ (List.mem_singleton_self _)
  refine ⟨n, Nat.le_trans hn (length_foldl_add_le before), hget, fun k hk => ?_,
    fun other hother he => ?_⟩
  · obtain ⟨⟨other, taken⟩, hmem, rfl⟩ := List.mem_map.mp (hbefore k hk)
    refine ⟨other, mem_ids_foldl_add.mp (List.mem_map_of_mem hmem), ?_⟩
    rw [hall, hadd]
    exact get?_foldl_add (get?_append_of_get?
      (get?_eq_some_of_mem (nodup_ids before) hmem)) after
  · obtain rfl := (isProper_ofModules ms).eq_of_get? hget he
    exact hnew hother

/-- In a list of modules with fewer than `2 ^ 32` ids the search for the name of each id ends at a
number that fits into a word of 32 bits. Every module and every dependency has a name that a script
may declare, no two ids have the same one, and names stay what they are when more modules or more
ids follow. -/
theorem ofModules_legal (ms : List ModuleRecord) (hfew : (mentioned ms).dedup.length < 2 ^ 32) :
    (∀ before id after, mentioned ms = before ++ id :: after → id ∉ before →
      ∃ n < 2 ^ 32, (ofModules ms).get? id = some (candidate id n) ∧
        (∀ k < n, ∃ other ∈ before, (ofModules ms).get? other = some (candidate id k)) ∧
        ∀ other ∈ before, (ofModules ms).get? other ≠ some (candidate id n)) ∧
    (∀ m ∈ ms, ∀ id ∈ m.id :: m.deps,
      ∃ name, (ofModules ms).get? id = some name ∧ IsLegal name) ∧
    (∀ id other name, (ofModules ms).get? id = some name → (ofModules ms).get? other = some name →
      other = id) ∧
    (∀ front back, ms = front ++ back → ∀ id name, (ofModules front).get? id = some name →
      (ofModules ms).get? id = some name) ∧
    ∀ (ids : List String) (id name : String), (ofModules ms).get? id = some name →
      (ids.foldl add (ofModules ms) : ShortNames).get? id = some name := by
  refine ⟨fun before id after hsplit hnew => ?_, fun m hm id hid => ?_,
    fun id other name h hother => (isProper_ofModules ms).eq_of_get? h hother,
    fun front back hms id name h => ?_, fun ids id name h => get?_foldl_add h ids⟩
  · obtain ⟨n, hn, hget, hbefore, hfree⟩ := exists_get?_ofModules hsplit hnew
    have hfront : before.dedup.length ≤ (mentioned ms).dedup.length :=
      length_dedup_le (hsplit ▸ List.subset_append_left before (id :: after))
    exact ⟨n, by omega, hget, hbefore, hfree⟩
  · have hmem : id ∈ mentioned ms := List.mem_flatMap.mpr ⟨m, hm, hid⟩
    obtain ⟨before, after, hsplit, hnew⟩ := List.eq_append_cons_of_mem hmem
    obtain ⟨n, -, hget, -, -⟩ := exists_get?_ofModules hsplit hnew
    exact ⟨_, hget, isLegal_candidate id n⟩
  · have hall : ofModules ms = (mentioned back).foldl add (ofModules front) := by
      rw [ofModules, ofModules, hms, mentioned, List.flatMap_append, List.foldl_append]
      rfl
    rw [hall]
    exact get?_foldl_add h (mentioned back)

/-- The second id is called after the third one's candidate, and the third is given a number more.
-/
theorem ofModules_legal_colliding :
    let ms : List ModuleRecord :=
      [⟨"a.B", "/a.js", "", ["a/B"], true, false, 0⟩, ⟨"a.B$1", "/b.js", "", [""], true, false, 0⟩]
    (mentioned ms).dedup.length < 2 ^ 32 ∧
      (ofModules ms).get? "a/B" = some "_a_B$1" ∧
      (ofModules ms).get? "a.B$1" = some "_a_B$1$1" ∧
      (ofModules ms).get? "" = some "__" ∧ IsLegal "_a_B$1$1" := by
  intro ms
  have hfew : (mentioned ms).dedup.length < 2 ^ 32 := by decide
  have hlast : (ofModules ms).get? "a.B$1" = some "_a_B$1$1" := by decide
  refine ⟨hfew, by decide, hlast, by decide, ?_⟩
  obtain ⟨name, hname, hlegal⟩ := (ofModules_legal ms hfew).2.1 _
    (List.mem_cons_of_mem _ (List.mem_singleton_self _)) "a.B$1" List.mem_cons_self
  obtain rfl : "_a_B$1$1" = name := Option.some.inj (hlast.symm.trans hname)
  exact hlegal

end DefineBundle.Bundle.ShortNames
