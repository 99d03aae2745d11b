import DefineBundle.Proofs.Layout.Resolution

/-!
# The ids of files

A file whose name and directories have no separators is reached by the ids that list them below the
root namespace, with any separator between each two. No two files below one base directory share
such an id.
-/
namespace DefineBundle.Layout

open DefineBundle.Disk (IsName)

/-- Names one behind the other, each two with a separator between them. -/
inductive Joins : List String → List Char → Prop
  | last {name cs} : cs = name.toList → Joins [name] cs
  | cons {name names c rest cs} : isSeparator c = true → Joins names rest →
      cs = name.toList ++ c :: rest → Joins (name :: names) cs

/-- The location of a file that is named without its extension. -/
def withExtension : List String → Location
  | [] => []
  | [name] => [name ++ ".js"]
  | name :: next :: names => name :: withExtension (next :: names)

theorem withExtension_eq_nil_iff {names : List String} : withExtension names = [] ↔ names = [] := by
  fun_cases withExtension names <;> simp

theorem withExtension_cons {names : List String} (h : names ≠ []) (name : String) :
    withExtension (name :: names) = name :: withExtension names := by
  obtain ⟨next, rest, rfl⟩ := List.exists_cons_of_ne_nil h
  rfl

theorem withExtension_injective {names names' : List String}
    (h : withExtension names = withExtension names') : names = names' := by
  induction names generalizing names' with
  | nil => exact (withExtension_eq_nil_iff.mp h.symm).symm
  | cons name rest ih =>
      cases names' with
      | nil => exact withExtension_eq_nil_iff.mp h
      | cons name' rest' =>
          by_cases hrest : rest = []
          · by_cases hrest' : rest' = []
            · rw [hrest, hrest'] at h ⊢
              simpa [withExtension, ← String.toList_inj] using h
            · rw [hrest, withExtension_cons hrest', withExtension, List.cons.injEq] at h
              exact absurd (withExtension_eq_nil_iff.mp h.2.symm) hrest'
          · by_cases hrest' : rest' = []
            · rw [hrest', withExtension_cons hrest, withExtension, List.cons.injEq] at h
              exact absurd (withExtension_eq_nil_iff.mp h.2) hrest
            · rw [withExtension_cons hrest, withExtension_cons hrest', List.cons.injEq] at h
              rw [h.1, ih h.2]

namespace Joins

variable {names : List String} {cs : List Char}

theorem ne_nil (h : Joins names cs) : names ≠ [] := by
  cases h <;> simp

theorem text_ne_nil (h : Joins names cs) (hnames : "" ∉ names) : cs ≠ [] := by
  cases h with
  | last hcs =>
      rw [hcs]
      simpa using Ne.symm (List.ne_of_not_mem_cons hnames)
  | cons _ _ hcs => simp [hcs]

/-- Names without separators are the names on the way, the last one with the extension. -/
theorem fileNames_eq (h : Joins names cs) (hnames : ∀ name ∈ names, name ≠ "" ∧ Undivided name) :
    fileNames cs = withExtension names := by
  induction h with
  | last hcs =>
      rw [hcs, fileNames_of_undivided (hnames _ List.mem_cons_self).2]
      rfl
  | cons hc hrest hcs ih =>
      obtain ⟨⟨hne, hname⟩, hothers⟩ := List.forall_mem_cons.mp hnames
      rw [hcs, fileNames_cons hname hne hc, ih hothers, withExtension_cons hrest.ne_nil]

theorem startsApart_eq (h : Joins names cs)
    (hnames : ∀ name ∈ names, name ≠ "" ∧ Undivided name) : startsApart cs = false := by
  cases h with
  | @last name _ hcs =>
      obtain ⟨hne, hname⟩ := hnames name List.mem_cons_self
      simpa [hcs] using hname.startsApart_append hne []
  | @cons name _ c rest _ hc hrest hcs =>
      obtain ⟨hne, hname⟩ := hnames name List.mem_cons_self
      rw [hcs]
      exact hname.startsApart_append hne _

theorem exists_below? {ns id : String} (h : Joins (ns :: names) id.toList) (hne : names ≠ [])
    (hnames : "" ∉ names) : ∃ rest, below? ns id = some rest ∧ Joins names rest := by
  cases h with
  | last => exact absurd rfl hne
  | @cons _ _ c rest _ hc hrest hid =>
      exact ⟨rest, below?_eq_some_iff.mpr ⟨hrest.text_ne_nil hnames, c, hc, hid⟩, hrest⟩

end Joins

/-- An id without a path of its own that lists the names of a file below its root namespace. -/
structure Names (l : Layout) (names : List String) (id : String) : Prop where
  free : l.overrides.get? id = none
  ne_nil : names ≠ []
  plain : ∀ name ∈ names, name ≠ "" ∧ Undivided name
  joined : Joins ((l.namespaceFor id).toList ++ names) id.toList

namespace Names

variable {l : Layout} {names : List String} {id : String}

/-- Whether the names repeat the namespace or not, it is taken off once. -/
theorem joins_remainder (h : l.Names names id) : Joins names (l.remainder id) := by
  have hjoined := h.joined
  cases hns : l.namespaceFor id with
  | none => simpa [remainder, hns] using hjoined
  | some ns =>
      rw [hns] at hjoined
      obtain ⟨rest, hrest, hnames⟩ :=
        hjoined.exists_below? h.ne_nil fun hempty => (h.plain "" hempty).1 rfl
      simpa [remainder, hns, hrest] using hnames

theorem fileNames_eq (h : l.Names names id) :
    fileNames (l.remainder id) = withExtension names :=
  h.joins_remainder.fileNames_eq h.plain

theorem isName_of_mem_withExtension (h : l.Names names id) :
    ∀ name ∈ withExtension names, IsName name := by
  rw [← h.fileNames_eq]
  exact isName_of_mem_fileNames

theorem pathOf_eq (h : l.Names names id) {k : Location} (hk : ∀ name ∈ k, IsName name)
    (hbase : l.baseFor id = Disk.pathOf k) :
    l.pathOf id = Disk.pathOf (k ++ withExtension names) := by
  have hdown := h.joins_remainder.startsApart_eq h.plain
  rw [pathOf_eq_append hk hbase h.free hdown, h.fileNames_eq]

end Names

/-- Ids that list the names of a file below their root namespace, with any separators, lead to that
file below their base directory. Two of them with one base directory lead to one file just when they
list the same names. -/
theorem pathOf_of_names {l : Layout} {names : List String} {id : String}
    (h : l.Names names id) {k : Location} (hk : ∀ name ∈ k, IsName name)
    (hbase : l.baseFor id = Disk.pathOf k) :
    l.pathOf id = Disk.pathOf (k ++ withExtension names) ∧
      ∀ {names' id'}, l.Names names' id' → l.baseFor id' = l.baseFor id →
        (l.pathOf id' = l.pathOf id ↔ names' = names) := by
  refine ⟨h.pathOf_eq hk hbase, fun {names' id'} h' hbase' => ?_⟩
  rw [h.pathOf_eq hk hbase, h'.pathOf_eq hk (hbase'.trans hbase)]
  constructor
  · intro hpath
    have hlocations := Disk.pathOf_injective
      (List.forall_mem_append.mpr ⟨hk, h'.isName_of_mem_withExtension⟩)
      (List.forall_mem_append.mpr ⟨hk, h.isName_of_mem_withExtension⟩) hpath
    exact withExtension_injective (List.append_cancel_left hlocations)
  · rintro rfl
    rfl

/-- A build with a library below its own root namespace. -/
def nestedLayout : Layout :=
  ⟨"/p/src", some "ephox",
    Assoc.ofList [("ephox.katamari", ⟨"/p/lib", some "ephox.katamari", .always⟩)], ∅⟩

/-- A file of the library with the namespace in its own names, spelled in two ways. -/
theorem pathOf_of_names_repeated :
    nestedLayout.Names ["ephox", "katamari", "Arr"] "ephox.katamari.ephox/katamari.Arr" ∧
    nestedLayout.pathOf "ephox.katamari.ephox/katamari.Arr" = "/p/lib/ephox/katamari/Arr.js" ∧
    nestedLayout.pathOf "ephox.katamari/ephox.katamari/Arr" =
      nestedLayout.pathOf "ephox.katamari.ephox/katamari.Arr" := by
  have hplain : ∀ name ∈ ["ephox", "katamari", "Arr"], name ≠ "" ∧ Undivided name := by decide
  have hnames : nestedLayout.Names ["ephox", "katamari", "Arr"]
      "ephox.katamari.ephox/katamari.Arr" :=
    ⟨rfl, by decide, hplain, .cons (c := '.') rfl (.cons (c := '/') rfl
      (.cons (c := '.') rfl (.last rfl) rfl) rfl) (by decide)⟩
  have hnames' : nestedLayout.Names ["ephox", "katamari", "Arr"]
      "ephox.katamari/ephox.katamari/Arr" :=
    ⟨rfl, by decide, hplain, .cons (c := '/') rfl (.cons (c := '.') rfl
      (.cons (c := '/') rfl (.last rfl) rfl) rfl) (by decide)⟩
  have hbase : nestedLayout.baseFor "ephox.katamari.ephox/katamari.Arr" =
      Disk.pathOf ["p", "lib"] := by decide
  obtain ⟨hpath, hsame⟩ := pathOf_of_names hnames (by decide) hbase
  exact ⟨hnames, hpath.trans rfl, (hsame hnames' (by decide)).mpr rfl⟩

end DefineBundle.Layout
