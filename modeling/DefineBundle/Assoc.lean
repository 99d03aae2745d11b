/-!
# Ordered maps

A map from text that remembers the order in which its keys first came. Setting a new key puts it
last; setting a known key keeps its place and changes its value. No key comes twice.
-/
namespace DefineBundle

/-- A map that keeps the order in which its keys first came. -/
structure Assoc (α : Type) where
  entries : List (String × α)
  nodup : (entries.map Prod.fst).Nodup
  deriving DecidableEq

namespace Assoc

variable {α β : Type}

def put (key : String) (value : α) : List (String × α) → List (String × α)
  | [] => [(key, value)]
  | (k, v) :: rest => if k = key then (k, value) :: rest else (k, v) :: put key value rest

theorem mem_keys_put {key k : String} {value : α} {es : List (String × α)} :
    k ∈ (put key value es).map Prod.fst ↔ k = key ∨ k ∈ es.map Prod.fst := by
  induction es with
  | nil => simp [put]
  | cons e es ih =>
      obtain ⟨k', v⟩ := e
      by_cases h : k' = key
      · subst h
        simp [put]
      · simp only [put, h, if_false, List.map_cons, List.mem_cons, ih]
        constructor
        · rintro (rfl | rfl | h) <;> simp_all
        · rintro (rfl | rfl | h) <;> simp_all

theorem nodup_put {key : String} {value : α} {es : List (String × α)}
    (h : (es.map Prod.fst).Nodup) : ((put key value es).map Prod.fst).Nodup := by
  induction es with
  | nil => simp [put]
  | cons e es ih =>
      obtain ⟨k', v⟩ := e
      rw [List.map_cons, List.nodup_cons] at h
      by_cases hk : k' = key
      · simp only [put, hk, if_true, List.map_cons, List.nodup_cons]
        exact ⟨hk ▸ h.1, h.2⟩
      · simp only [put, hk, if_false, List.map_cons, List.nodup_cons]
        exact ⟨fun hm => (mem_keys_put.1 hm).elim hk h.1, ih h.2⟩

def empty : Assoc α :=
  ⟨[], List.nodup_nil⟩

def insert (m : Assoc α) (key : String) (value : α) : Assoc α :=
  ⟨put key value m.entries, nodup_put m.nodup⟩

def get? (m : Assoc α) (key : String) : Option α :=
  (m.entries.find? fun e => e.1 == key).map (·.2)

def contains (m : Assoc α) (key : String) : Bool :=
  (m.get? key).isSome

/-- The map of pairs in their order; of several values of a key the last counts. -/
def ofList (ps : List (String × α)) : Assoc α :=
  ps.foldl (fun m p => m.insert p.1 p.2) empty

def map (f : α → β) (m : Assoc α) : Assoc β :=
  ⟨m.entries.map fun e => (e.1, f e.2), by simpa [Function.comp_def] using m.nodup⟩

def values (m : Assoc α) : List α :=
  m.entries.map Prod.snd

def erase (m : Assoc α) (key : String) : Assoc α :=
  ⟨m.entries.filter fun e => e.1 != key, m.nodup.sublist (List.filter_sublist.map Prod.fst)⟩

theorem find?_put_self (key : String) (value : α) (es : List (String × α)) :
    (put key value es).find? (fun e => e.1 == key) = some (key, value) := by
  induction es with
  | nil => simp [put]
  | cons e es ih =>
      by_cases h : e.1 = key
      · simp [put, h]
      · simp [put, h, ih]

theorem find?_put_of_ne {key k : String} (hk : k ≠ key) (value : α) (es : List (String × α)) :
    (put key value es).find? (fun e => e.1 == k) = es.find? (fun e => e.1 == k) := by
  induction es with
  | nil => simp [put, hk.symm]
  | cons e es ih =>
      obtain ⟨k', v⟩ := e
      by_cases h : k' = key
      · simp [put, h, hk.symm]
      · simp [put, h, List.find?_cons, ih]

theorem get?_insert (m : Assoc α) (key k : String) (value : α) :
    (m.insert key value).get? k = if k = key then some value else m.get? k := by
  by_cases h : k = key
  · subst h
    simp [get?, insert, find?_put_self]
  · simp [get?, insert, find?_put_of_ne h, h]

instance (α : Type) : EmptyCollection (Assoc α) := ⟨empty⟩

@[simp]
theorem get?_empty (k : String) : (∅ : Assoc α).get? k = none :=
  rfl

theorem get?_map (f : α → β) (m : Assoc α) (key : String) :
    (m.map f).get? key = (m.get? key).map f := by
  simp [get?, Assoc.map, List.find?_map, Function.comp_def]

theorem contains_iff {m : Assoc α} {key : String} :
    m.contains key = true ↔ key ∈ m.entries.map Prod.fst := by
  simp [contains, get?, List.find?_isSome]

theorem mem_keys_foldl_insert {ps : List (String × α)} {m : Assoc α} {key : String} :
    key ∈ (ps.foldl (fun m p => m.insert p.1 p.2) m).entries.map Prod.fst ↔
      key ∈ m.entries.map Prod.fst ∨ key ∈ ps.map Prod.fst := by
  induction ps generalizing m with
  | nil => simp
  | cons p ps ih =>
      have hput : key ∈ (m.insert p.1 p.2).entries.map Prod.fst ↔
          key = p.1 ∨ key ∈ m.entries.map Prod.fst := mem_keys_put
      rw [List.foldl_cons, ih, hput, List.map_cons, List.mem_cons, or_assoc, or_left_comm]

theorem mem_keys_ofList {ps : List (String × α)} {key : String} :
    key ∈ (ofList ps).entries.map Prod.fst ↔ key ∈ ps.map Prod.fst := by
  rw [ofList, mem_keys_foldl_insert]
  simp [empty]

theorem put_of_notMem {key : String} {es : List (String × α)} (h : key ∉ es.map Prod.fst)
    (value : α) : put key value es = es ++ [(key, value)] := by
  induction es with
  | nil => rfl
  | cons e es ih =>
      rw [List.map_cons, List.mem_cons, not_or] at h
      rw [put, if_neg (Ne.symm h.1), ih h.2, List.cons_append]

theorem entries_foldl_insert {ps : List (String × α)} {m : Assoc α}
    (h : ((m.entries ++ ps).map Prod.fst).Nodup) :
    (ps.foldl (fun m p => m.insert p.1 p.2) m).entries = m.entries ++ ps := by
  induction ps generalizing m with
  | nil => simp
  | cons p ps ih =>
      have hnew : p.1 ∉ m.entries.map Prod.fst := by
        rw [List.map_append, List.map_cons, List.nodup_append] at h
        exact fun hmem => h.2.2 _ hmem _ List.mem_cons_self rfl
      have hput : (m.insert p.1 p.2).entries = m.entries ++ [p] := put_of_notMem hnew p.2
      rw [List.foldl_cons, ih (by rw [hput]; simpa using h), hput, List.append_assoc,
        List.singleton_append]

theorem ofList_entries (m : Assoc α) : ofList m.entries = m := by
  have hentries : (ofList m.entries).entries = m.entries :=
    entries_foldl_insert (by simpa [empty] using m.nodup)
  cases hm : ofList m.entries with
  | mk es hes =>
      obtain rfl : es = m.entries := by rw [← hentries, hm]
      rfl

end Assoc

end DefineBundle
