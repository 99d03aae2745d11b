import DefineBundle.Bundle.ShortNames
import DefineBundle.Proofs.Fingerprint.Preimage
import Mathlib.Data.List.Nodup

/-!
# Names that stand for ids

Every id that a module mentions gets a name, and no two ids get the same: of the numbers that are
tried, one more than there are names, one must be free. So a name can be undone. A name starts with
an underscore, whatever its id.
-/
namespace DefineBundle.Bundle.ShortNames

variable {names : ShortNames} {id name : String} {ms : List ModuleRecord}

theorem isTaken_iff : names.isTaken name = true ↔ name ∈ names.map Prod.snd := by
  simp [isTaken]

theorem toList_numbered (name : String) (n : Nat) :
    (numbered name n).toList = name.toList ++ '$' :: Nat.toDigits 10 n := by
  simp [numbered]

theorem numbered_injective (name : String) : Function.Injective (numbered name) := by
  intro n k h
  have hlist := congrArg String.toList h
  rw [toList_numbered, toList_numbered] at hlist
  exact Fingerprint.toDigits_injective (List.cons.inj (List.append_cancel_left hlist)).2

/-- A search ends at a name that is taken only if all names tried are. -/
theorem isTaken_of_freeNumber {fuel n : Nat}
    (h : names.isTaken (freeNumber names name fuel n) = true) :
    ∀ k ≤ fuel, names.isTaken (numbered name (n + k)) = true := by
  induction fuel generalizing n with
  | zero =>
      intro k hk
      obtain rfl : k = 0 := Nat.le_zero.mp hk
      exact h
  | succ fuel ih =>
      unfold freeNumber at h
      split at h
      · rename_i htaken
        intro k hk
        cases k with
        | zero => exact htaken
        | succ k =>
            have hlater := ih h k (Nat.le_of_succ_le_succ hk)
            rwa [Nat.add_right_comm] at hlater
      · rename_i hfree
        exact absurd h hfree

theorem nameFor_notMem (names : ShortNames) (id : String) :
    names.nameFor id ∉ names.map Prod.snd := by
  rw [← isTaken_iff]
  unfold nameFor
  dsimp only
  split
  · intro htaken
    have hall := isTaken_of_freeNumber htaken
    -- the numbered names that were tried are more than there are names at all
    have hsub : (List.range (names.length + 1)).map (fun k => numbered (plainName id) (1 + k)) ⊆
        names.map Prod.snd := by
      intro x hx
      obtain ⟨k, hk, rfl⟩ := List.mem_map.mp hx
      exact isTaken_iff.mp (hall k (Nat.le_of_lt_succ (List.mem_range.mp hk)))
    have hnodup : ((List.range (names.length + 1)).map
        fun k => numbered (plainName id) (1 + k)).Nodup := by
      refine List.nodup_range.map_on fun k _ k' _ h => ?_
      exact Nat.add_left_cancel (numbered_injective _ h)
    have hlength := hnodup.length_le_of_subset hsub
    rw [List.length_map, List.length_map, List.length_range] at hlength
    omega
  · assumption

theorem head?_nameFor (names : ShortNames) (id : String) :
    (names.nameFor id).toList.head? = some '_' := by
  have hplain : (plainName id).toList.head? = some '_' := by simp [plainName]
  have hnumbered : ∀ n, (numbered (plainName id) n).toList.head? = some '_' := fun n => by
    rw [toList_numbered, List.head?_append, hplain]
    rfl
  have hfree : ∀ fuel n, (freeNumber names (plainName id) fuel n).toList.head? = some '_' := by
    intro fuel
    induction fuel with
    | zero => exact hnumbered
    | succ fuel ih =>
        intro n
        unfold freeNumber
        split
        · exact ih (n + 1)
        · exact hnumbered n
  unfold nameFor
  dsimp only
  split
  · exact hfree _ _
  · exact hplain

/-- No name is given twice, and each starts with an underscore. -/
structure IsProper (names : ShortNames) : Prop where
  nodup : (names.map Prod.snd).Nodup
  head : ∀ e ∈ names, e.2.toList.head? = some '_'

theorem isProper_nil : IsProper [] :=
  ⟨List.nodup_nil, fun _ h => absurd h List.not_mem_nil⟩

theorem get?_eq_none_iff : names.get? id = none ↔ id ∉ names.map Prod.fst := by
  unfold get?
  rw [Option.map_eq_none_iff, List.find?_eq_none, List.mem_map]
  simp only [beq_iff_eq, not_exists, not_and]

theorem IsProper.add (h : IsProper names) (id : String) : IsProper (names.add id) := by
  unfold ShortNames.add
  split
  · exact h
  · have hnew := nameFor_notMem names id
    refine ⟨?_, fun e he => ?_⟩
    · rw [List.map_append, List.map_singleton]
      refine List.nodup_append.mpr ⟨h.nodup, List.nodup_singleton _, fun a ha b hb he => hnew ?_⟩
      obtain rfl : b = names.nameFor id := List.mem_singleton.mp hb
      exact he ▸ ha
    · rcases List.mem_append.mp he with he | he
      · exact h.head e he
      · rw [List.mem_singleton.mp he]
        exact head?_nameFor names id

theorem mem_map_fst_add {other : String} :
    other ∈ (names.add id).map Prod.fst ↔ other ∈ names.map Prod.fst ∨ other = id := by
  unfold add
  split
  · rename_i hknown
    have hmem : id ∈ names.map Prod.fst := by
      by_contra hno
      rw [get?_eq_none_iff.mpr hno] at hknown
      cases hknown
    constructor
    · exact .inl
    · rintro (h | rfl)
      · exact h
      · exact hmem
  · simp

theorem foldl_add (ids : List String) (h : IsProper names) :
    IsProper (ids.foldl add names) ∧
      ∀ id, id ∈ (ids.foldl add names).map Prod.fst ↔ id ∈ names.map Prod.fst ∨ id ∈ ids := by
  induction ids generalizing names with
  | nil => exact ⟨h, by simp⟩
  | cons i ids ih =>
      obtain ⟨hproper, hmem⟩ := ih (h.add i)
      refine ⟨hproper, fun id => ?_⟩
      rw [List.foldl_cons, hmem, mem_map_fst_add, List.mem_cons, or_assoc]

theorem isProper_ofModules (ms : List ModuleRecord) : IsProper (ofModules ms) :=
  (foldl_add (mentioned ms) isProper_nil).1

theorem mem_ids_ofModules : id ∈ (ofModules ms).map Prod.fst ↔ id ∈ mentioned ms := by
  have hmem := (foldl_add (mentioned ms) isProper_nil).2 id
  rwa [List.map_nil, or_iff_right List.not_mem_nil] at hmem

def idOf? (names : ShortNames) (name : String) : Option String :=
  (names.find? fun e => e.2 == name).map (·.1)

theorem mem_of_get? (h : names.get? id = some name) : (id, name) ∈ names := by
  obtain ⟨e, hfound, rfl⟩ := Option.map_eq_some_iff.mp h
  have hid : e.1 = id := by simpa using List.find?_some hfound
  exact hid ▸ List.mem_of_find?_eq_some hfound

theorem mem_of_idOf? (h : names.idOf? name = some id) : (id, name) ∈ names := by
  obtain ⟨e, hfound, rfl⟩ := Option.map_eq_some_iff.mp h
  have hname : e.2 = name := by simpa using List.find?_some hfound
  exact hname ▸ List.mem_of_find?_eq_some hfound

theorem IsProper.idOf?_of_get? (h : IsProper names) (hget : names.get? id = some name) :
    names.idOf? name = some id := by
  have hmem := mem_of_get? hget
  cases hback : names.idOf? name with
  | none =>
      simp only [idOf?, Option.map_eq_none_iff, List.find?_eq_none, beq_iff_eq] at hback
      exact absurd rfl (hback _ hmem)
  | some other =>
      have he := List.inj_on_of_nodup_map h.nodup (mem_of_idOf? hback) hmem rfl
      exact congrArg some (Prod.mk.inj he).1

/-- What does not start with an underscore is no name. -/
theorem IsProper.idOf?_eq_none (h : IsProper names) (hname : name.toList.head? ≠ some '_') :
    names.idOf? name = none := by
  cases hback : names.idOf? name with
  | none => rfl
  | some id => exact absurd (h.head _ (mem_of_idOf? hback)) hname

theorem idOf?_eq_none_of_notMem (h : ∀ e ∈ names, e.2 ≠ name) : names.idOf? name = none := by
  cases hback : names.idOf? name with
  | none => rfl
  | some id => exact absurd rfl (h _ (mem_of_idOf? hback))

end DefineBundle.Bundle.ShortNames
