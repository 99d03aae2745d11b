import DefineBundle.Json.Decode
import DefineBundle.Proofs.Lists.Traversals
import DefineBundle.Proofs.Options.SettingsText

/-!
# Reading written values

A decoder that reads the values of a writer reads what is made from them: values that may be
missing, and maps, with their entries in their order. A record that is written with all fields in
their order is read like the list of their values, so it is read when each of them is.
-/
namespace DefineBundle

namespace Json

/-- A decoder reads whatever a writer writes. -/
def Reads {α : Type} (decode : Json → Except Fault α) (write : α → Json) : Prop :=
  ∀ a, decode (write a) = .ok a

section
variable {α σ : Type} {decode : Json → Except Fault α} {write : α → Json}

theorem reads_string : Reads asString string :=
  fun _ => rfl

theorem reads_path : Reads asPath string :=
  fun _ => rfl

theorem reads_bool : Reads asBool bool :=
  fun _ => rfl

/-- A value that may be missing is read when a value that is there is not taken for a missing
one. -/
theorem Reads.ofOption (h : Reads decode write) (hnull : ∀ a, write a ≠ null) :
    Reads (asOptional decode) (ofOption write) := by
  intro a?
  cases a? with
  | none => rfl
  | some a =>
      have hvalue : asOptional decode (write a) = some <$> decode (write a) := by
        unfold asOptional
        split
        · exact absurd ‹_› (hnull a)
        · rfl
      rw [Json.ofOption, hvalue, h a]
      rfl

theorem Reads.ofAssoc (h : Reads decode write) : Reads (asMap decode) (ofAssoc write) := by
  intro m
  have hentries : ∀ es : List (String × α), (es.map fun e => (e.1, write e.2)).mapM
      (fun p => do return (p.1, ← decode p.2) : String × Json → Except Fault (String × α)) =
        .ok es := by
    intro es
    refine mapM_eq_ok_iff.mpr (List.forall₂_map_left_iff.mpr (List.forall₂_same.mpr fun e _ => ?_))
    exact bind_eq_ok (h e.2) rfl
  rw [Json.ofAssoc, asMap, hentries m.entries]
  exact congrArg Except.ok m.ofList_entries

theorem strings?_ofStrings (ss : List String) : strings? (ofStrings ss) = some ss := by
  rw [ofStrings, strings?, mapM_eq_some_iff, List.forall₂_map_left_iff]
  exact List.forall₂_same.mpr fun s _ => rfl

theorem areWellFormed_of_forall {items : List Json} (h : ∀ j ∈ items, j.isWellFormed = true) :
    areWellFormed items = true := by
  induction items with
  | nil => rfl
  | cons j items ih =>
      rw [List.forall_mem_cons] at h
      rw [areWellFormed, h.1, ih h.2]
      rfl

theorem membersWellFormed_of_forall {members : List (String × Json)}
    (h : ∀ m ∈ members, m.2.isWellFormed = true) : membersWellFormed members = true := by
  induction members with
  | nil => rfl
  | cons m members ih =>
      rw [List.forall_mem_cons] at h
      rw [membersWellFormed, memberWellFormed, h.1, ih h.2]
      rfl

theorem IsPlain.isWellFormed {depth : Nat} {j : Json} (h : IsPlain depth j) :
    j.isWellFormed = true := by
  induction h with
  | null => rfl
  | bool b => rfl
  | string s => rfl
  | array _ _ ih =>
      rw [Json.isWellFormed, areWellFormed_of_forall ih]
      rfl
  | object _ _ ih =>
      rw [Json.isWellFormed, membersWellFormed_of_forall ih]
      rfl

theorem asVariant_of_isPlain {depth : Nat} {j : Json} (h : IsPlain depth j) {type : String}
    {variant? : Json → Option α} {a : α} (ha : variant? j = some a) :
    asVariant type variant? j = .ok a := by
  rw [asVariant, h.isWellFormed, ha]
  rfl

/-- A field takes the value that is read for it. -/
theorem bind_reads {set : α → σ} (h : Reads decode write) (a : α) :
    (do return set (← decode (write a)) : Except Fault σ) = .ok (set a) := by
  rw [h a]
  rfl

theorem setItems_cons {f : Field σ} {fs : List (Field σ)} {s s₁ s' : σ} {j : Json}
    {js rest : List Json} {n : Nat} (hset : f.set s j = .ok s₁)
    (hrest : setItems fs s₁ js = .ok (s', n, rest)) :
    setItems (f :: fs) s (j :: js) = .ok (s', n + 1, rest) := by
  rw [setItems]
  exact bind_eq_ok hset (bind_eq_ok hrest rfl)

theorem find?_name {fields done fs : List (Field σ)} {f : Field σ}
    (hnodup : (fields.map Field.name).Nodup) (hfields : fields = done ++ f :: fs) :
    (fields.find? fun g => g.name == f.name) = some f := by
  have hdone : (done.find? fun g => g.name == f.name) = none := by
    rw [hfields, List.map_append, List.map_cons, List.nodup_append] at hnodup
    refine List.find?_eq_none.mpr fun g hg => ?_
    simpa using hnodup.2.2 _ (List.mem_map_of_mem hg) _ List.mem_cons_self
  rw [hfields, List.find?_append, hdone, Option.none_or, List.find?_cons, beq_self_eq_true]

/-- The members of an object with the last fields `fs` of a record are set like the items of a
list. -/
theorem setMembers_zip {fields done fs : List (Field σ)} (hnodup : (fields.map Field.name).Nodup)
    (hfields : fields = done ++ fs) {js : List Json} {s s' : σ}
    (hitems : setItems fs s js = .ok (s', fs.length, [])) :
    setMembers fields (done.map Field.name).reverse s ((fs.map Field.name).zip js) =
      .ok ((fields.map Field.name).reverse, s') := by
  induction fs generalizing done js s with
  | nil =>
      simp only [setItems, List.length_nil, Except.ok.injEq, Prod.mk.injEq] at hitems
      obtain ⟨rfl, -, rfl⟩ := hitems
      rw [hfields, List.append_nil]
      rfl
  | cons f fs ih =>
      cases js with
      | nil => simp [setItems] at hitems
      | cons j js =>
          rw [setItems] at hitems
          obtain ⟨s₁, hset, hitems⟩ := exists_of_bind_eq_ok hitems
          obtain ⟨⟨s₂, n, rest⟩, hrest, hitems⟩ := exists_of_bind_eq_ok hitems
          simp only [pure, Except.pure, Except.ok.injEq, Prod.mk.injEq, List.length_cons,
            Nat.add_right_cancel_iff] at hitems
          obtain ⟨rfl, rfl, rfl⟩ := hitems
          have hnew : (done.map Field.name).reverse.contains f.name = false := by
            rw [hfields, List.map_append, List.map_cons, List.nodup_append] at hnodup
            simpa using fun g hg he => hnodup.2.2 _ (List.mem_map_of_mem hg) _ List.mem_cons_self he
          have hnext := @ih (done ++ [f]) (by simp [hfields]) js s₁ hrest
          rw [List.map_append, List.map_singleton, List.reverse_append, List.reverse_singleton,
            List.singleton_append] at hnext
          rw [List.map_cons, List.zip_cons_cons, setMembers, find?_name hnodup hfields]
          simp only [hnew, Bool.false_eq_true, if_false]
          exact bind_eq_ok hset hnext

/-- A record that is written with all fields in their order is read when their values are. -/
theorem asRecord_zip {fields : List (Field σ)} (hnodup : (fields.map Field.name).Nodup)
    {js : List Json} {start s : σ} (hitems : setItems fields start js = .ok (s, fields.length, []))
    {type : String} {required : List String} {mayEndEarly : Bool}
    (hrequired : ∀ r ∈ required, r ∈ fields.map Field.name) :
    asRecord type fields required mayEndEarly start (object ((fields.map Field.name).zip js) true) =
      .ok s := by
  have hmembers := setMembers_zip hnodup (List.nil_append fields).symm hitems
  have hnone : (required.find? fun r => !(fields.map Field.name).reverse.contains r) = none := by
    refine List.find?_eq_none.mpr fun r hr => ?_
    simpa using hrequired r hr
  rw [asRecord]
  refine bind_eq_ok hmembers ?_
  dsimp only
  rw [hnone]
  rfl

end

end Json

end DefineBundle
