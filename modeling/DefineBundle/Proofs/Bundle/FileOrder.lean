import DefineBundle.Bundle.Content
import DefineBundle.Proofs.Discovery.Order
import DefineBundle.Proofs.Lists.FirstPlaces

/-!
# The order of files in a bundle

A bundle has its files in the order in which their first modules were recorded. A module comes after
its dependencies, but its file need not: a file whose first module is recorded before it asks for
another file stands in front of that file, with all its modules. So the file of a dependency stands
in front of the file of a module just when one of its modules is recorded before the first of that
file.
-/
namespace DefineBundle.Bundle

open DefineBundle.Discovery (run Follows servedAt_of_run inlineOptions inlineRun of_inlineRun)

/-- The paths of the files of a bundle, in their order. -/
def fileOrder (globals : Assoc String) (ms : List ModuleRecord) : List String :=
  (files (members globals ms)).map BundleFile.path

theorem map_record_members (globals : Assoc String) (ms : List ModuleRecord) :
    (members globals ms).map Member.record = ms := by
  induction ms with
  | nil => rfl
  | cons m ms ih => rw [members, List.map_cons, ih]

theorem map_path_addMember (m : Member) (fs : List BundleFile) :
    (addMember m fs).map BundleFile.path =
      if m.record.path ∈ fs.map BundleFile.path then fs.map BundleFile.path
      else fs.map BundleFile.path ++ [m.record.path] := by
  induction fs with
  | nil => rfl
  | cons f fs ih =>
      rw [addMember]
      split
      · rename_i hp
        simp [hp]
      · rename_i hp
        have hne : m.record.path ≠ f.path := fun he => hp he.symm
        rw [List.map_cons, ih, List.map_cons]
        simp only [List.mem_cons, hne, false_or]
        split <;> rfl

theorem map_path_files (ms : List Member) :
    (files ms).map BundleFile.path = (ms.map fun m => m.record.path).eraseDups := by
  induction ms using List.reverseRecOn with
  | nil => rfl
  | append_singleton ms m ih =>
      have hfiles : files (ms ++ [m]) = addMember m (files ms) := by
        simp [files, List.foldl_append]
      rw [hfiles, map_path_addMember, ih, List.map_append, List.map_singleton, eraseDups_concat]
      simp only [List.mem_eraseDups, List.elem_eq_mem, decide_eq_true_eq]
      split <;> simp

theorem fileOrder_eq (globals : Assoc String) (ms : List ModuleRecord) :
    fileOrder globals ms = (ms.map ModuleRecord.path).eraseDups := by
  rw [fileOrder, map_path_files]
  conv_rhs => rw [← map_record_members globals ms]
  rw [List.map_map]
  rfl

/-- A module of the file `p` stands in front of every module of the file `q`. -/
def Precedes (ms : List ModuleRecord) (p q : String) : Prop :=
  ∃ (i : Nat) (r : ModuleRecord), ms[i]? = some r ∧ r.path = p ∧
    ∀ (j : Nat) (r' : ModuleRecord), ms[j]? = some r' → r'.path = q → i < j

theorem getElem?_map_path {ms : List ModuleRecord} {i : Nat} {p : String} :
    (ms.map ModuleRecord.path)[i]? = some p ↔ ∃ r, ms[i]? = some r ∧ r.path = p := by
  rw [List.getElem?_map, Option.map_eq_some_iff]

/-- A file stands before another in a bundle just when one of its modules is recorded before all
modules of the other. -/
theorem fileOrder_lt_iff (globals : Assoc String) {ms : List ModuleRecord} {m r : ModuleRecord}
    (hr : r ∈ ms) (hm : m ∈ ms) :
    (fileOrder globals ms).idxOf r.path < (fileOrder globals ms).idxOf m.path ↔
      Precedes ms r.path m.path := by
  rw [fileOrder_eq, idxOf_eraseDups_lt_iff (List.mem_map_of_mem hr) (List.mem_map_of_mem hm),
    idxOf_lt_idxOf_iff (List.mem_map_of_mem hr) (List.mem_map_of_mem hm)]
  constructor
  · rintro ⟨i, hi, hall⟩
    obtain ⟨r', hr', hp⟩ := getElem?_map_path.mp hi
    exact ⟨i, r', hr', hp, fun j q hq hqp => hall j (getElem?_map_path.mpr ⟨q, hq, hqp⟩)⟩
  · rintro ⟨i, r', hr', hp, hall⟩
    refine ⟨i, getElem?_map_path.mpr ⟨r', hr', hp⟩, fun j hj => ?_⟩
    obtain ⟨q, hq, hqp⟩ := getElem?_map_path.mp hj
    exact hall j q hq hqp

/-- Without a report of a cycle, a module of the file of a dependency is recorded in front of the
module that asks for it. -/
theorem exists_before_of_dependency {view : FileView} {s : Settings} {cache : FileCache}
    {d : Discovery} (h : run view s cache = .ok d)
    (hw : ∀ p, .circularDependency p ∉ d.warnings) {i : Nat} {m : ModuleRecord}
    (hm : d.modules[i]? = some m) {dep : String} (hdep : dep ∈ m.deps) (hf : Follows s m.id dep)
    (hdecl : ∃ r ∈ d.modules, r.path = s.pathOf dep) :
    ∃ (j : Nat) (r : ModuleRecord), j < i ∧ d.modules[j]? = some r ∧ r.path = s.pathOf dep := by
  obtain ⟨-, ⟨-, hall⟩ | ⟨j, r, hj, hr, -, hp⟩ | hcyc⟩ := servedAt_of_run h hm hdep hf
  · obtain ⟨r, hr, hp⟩ := hdecl
    obtain ⟨j, hj⟩ := List.getElem?_of_mem hr
    exact ⟨j, r, hall j r hj hp, hj, hp⟩
  · exact ⟨j, r, hj, hr, hp⟩
  · exact absurd hcyc (hw _)

/-- Without a report of a cycle, a module of the file of a dependency is always recorded in front of
the module that asks for it; but the file stands in front of the module's file in a bundle only if
one of its modules is recorded before the first of that file. The module is late enough when it is
itself the first of its file. -/
theorem fileOrder_dependency_lt_iff {view : FileView} {s : Settings} {cache : FileCache}
    {d : Discovery} (h : run view s cache = .ok d)
    (hw : ∀ p, .circularDependency p ∉ d.warnings) {i : Nat} {m : ModuleRecord}
    (hm : d.modules[i]? = some m) {dep : String} (hdep : dep ∈ m.deps) (hf : Follows s m.id dep)
    (hdecl : ∃ r ∈ d.modules, r.path = s.pathOf dep) (globals : Assoc String) :
    (∃ (j : Nat) (r : ModuleRecord), j < i ∧ d.modules[j]? = some r ∧ r.path = s.pathOf dep) ∧
      ((fileOrder globals d.modules).idxOf (s.pathOf dep) <
          (fileOrder globals d.modules).idxOf m.path ↔
        Precedes d.modules (s.pathOf dep) m.path) ∧
      ((∀ (j : Nat) (r : ModuleRecord), d.modules[j]? = some r → r.path = m.path → i ≤ j) →
        (fileOrder globals d.modules).idxOf (s.pathOf dep) <
          (fileOrder globals d.modules).idxOf m.path) := by
  have hbefore := exists_before_of_dependency h hw hm hdep hf hdecl
  obtain ⟨q, hq, hqp⟩ := hdecl
  have hiff := fileOrder_lt_iff globals hq (List.mem_of_getElem? hm)
  rw [hqp] at hiff
  refine ⟨hbefore, hiff, fun hfirst => hiff.mpr ?_⟩
  obtain ⟨j, r, hj, hr, hp⟩ := hbefore
  refine ⟨j, r, hr, hp, fun k r' hr' hp' => ?_⟩
  have hle := hfirst k r' hr' hp'
  omega

/-- A file with a first module before one that asks for another file. -/
def asking (first : String) : List (String × String) :=
  [("a.js", first ++ "; define('b', ['c'], c => 0)"), ("c.js", "define('c', [], () => 0)")]

/-- What is found from such a file. -/
def foundFrom (first : String) :
    Option (List (String × String × List String) × List Warning × String × Bool) :=
  (inlineRun (inlineOptions ["a.js"] (asking first))).map fun (s, d) =>
    (d.modules.map fun m => (m.id, m.path, m.deps), d.warnings, s.pathOf "c", s.includes "c")

/-- When the first module asks for the other file, too, that file stands in front. -/
theorem fileOrder_dependency_lt_asked : ∃ s d, run (Listing.view ∅) s .empty = .ok d ∧
    d.modules.map ModuleRecord.path = ["/c.js", "/a.js", "/a.js"] ∧
    (fileOrder s.globalModules d.modules).idxOf "/c.js" <
      (fileOrder s.globalModules d.modules).idxOf "/a.js" := by
  have hfound : foundFrom "define('a', ['c'], c => 0)" =
      some ([("c", "/c.js", []), ("a", "/a.js", ["c"]), ("b", "/a.js", ["c"])], [], "/c.js",
        true) := by
    decide +kernel
  obtain ⟨⟨s, d⟩, hrun, he⟩ := Option.map_eq_some_iff.mp hfound
  simp only [Prod.mk.injEq] at he
  obtain ⟨hm, hw, hp, hin⟩ := he
  obtain ⟨-, hd⟩ := of_inlineRun hrun
  simp only [List.map_eq_cons_iff, List.map_eq_nil_iff, Prod.mk.injEq] at hm
  obtain ⟨c, _, hms, ⟨-, hcp, -⟩, a, _, rfl, ⟨-, hap, -⟩, b, _, rfl, ⟨hbid, hbp, hbd⟩, rfl⟩ := hm
  have hb : d.modules[2]? = some b := by simp [hms]
  have hf : Follows s b.id "c" := ⟨by simp [hbid], hin⟩
  have hiff := (fileOrder_dependency_lt_iff hd (by simp [hw]) hb (by simp [hbd]) hf
    ⟨c, by simp [hms], hcp.trans hp.symm⟩ s.globalModules).2.1
  rw [hp, hbp] at hiff
  refine ⟨s, d, hd, by simp [hms, hap, hbp, hcp], hiff.mpr ⟨0, c, by simp [hms], hcp, ?_⟩⟩
  intro j r hr hrp
  refine Nat.pos_of_ne_zero fun hj => ?_
  simp only [hj, hms, List.getElem?_cons_zero, Option.some.injEq] at hr
  simp [← hr, hcp] at hrp

/-- When it does not, the other file stands behind the module that asks for it. -/
theorem fileOrder_dependency_late : ∃ s d m, run (Listing.view ∅) s .empty = .ok d ∧
    d.warnings = [] ∧ m ∈ d.modules ∧ "c" ∈ m.deps ∧ Follows s m.id "c" ∧
    s.pathOf "c" ≠ m.path ∧ (∃ r ∈ d.modules, r.path = s.pathOf "c") ∧
    ¬ (fileOrder s.globalModules d.modules).idxOf (s.pathOf "c") <
      (fileOrder s.globalModules d.modules).idxOf m.path := by
  have hfound : foundFrom "define('a', [], () => 0)" =
      some ([("a", "/a.js", []), ("c", "/c.js", []), ("b", "/a.js", ["c"])], [], "/c.js",
        true) := by
    decide +kernel
  obtain ⟨⟨s, d⟩, hrun, he⟩ := Option.map_eq_some_iff.mp hfound
  simp only [Prod.mk.injEq] at he
  obtain ⟨hm, hw, hp, hin⟩ := he
  obtain ⟨-, hd⟩ := of_inlineRun hrun
  simp only [List.map_eq_cons_iff, List.map_eq_nil_iff, Prod.mk.injEq] at hm
  obtain ⟨a, _, hms, ⟨-, hap, -⟩, c, _, rfl, ⟨-, hcp, -⟩, b, _, rfl, ⟨hbid, hbp, hbd⟩, rfl⟩ := hm
  refine ⟨s, d, b, hd, hw, by simp [hms], by simp [hbd], ⟨by simp [hbid], hin⟩, by simp [hp, hbp],
    ⟨c, by simp [hms], hcp.trans hp.symm⟩, ?_⟩
  rw [fileOrder_eq, hms, hp, hbp]
  simp only [List.map_cons, List.map_nil, hap, hbp, hcp]
  decide

end DefineBundle.Bundle
