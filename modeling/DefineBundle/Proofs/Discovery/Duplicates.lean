import DefineBundle.Proofs.Discovery.Cycles

/-!
# Ids that are declared twice

A discovery remembers of every id the file that was the first to declare it. Whatever files are
loaded between a declaration and its record, that is the file of the first module recorded with the
id. So the duplicates that are reported can be read off the modules: there is one for each module
whose id another file was the first to declare, in the order of the modules.
-/
namespace DefineBundle

def Warning.isDuplicate : Warning → Bool
  | duplicateId _ _ _ => true
  | _ => false

namespace Discovery

/-- What is to be reported of a module: another file was the first to declare its id. -/
def duplicate? (ms : List ModuleRecord) (m : ModuleRecord) : Option Warning :=
  (first? ms m.id).bind fun first =>
    if first.path = m.path then none else some (.duplicateId m.id first.path m.path)

/-- The duplicates reported are those among the modules, in their order. -/
def ReportsDuplicates (d : Discovery) : Prop :=
  d.warnings.filter Warning.isDuplicate = d.modules.filterMap (duplicate? d.modules)

section
variable {view : FileView} {s : Settings} {d d' : Discovery} {c c' : Stage}
variable {ms : List ModuleRecord} {m : ModuleRecord}

theorem isSome_first? (hm : m ∈ ms) : (first? ms m.id).isSome := by
  rw [first?, List.find?_isSome]
  exact ⟨m, hm, by simp⟩

theorem duplicate?_append (hm : m ∈ ms) (r : ModuleRecord) :
    duplicate? (ms ++ [r]) m = duplicate? ms m := by
  obtain ⟨first, hfirst⟩ := Option.isSome_iff_exists.mp (isSome_first? hm)
  simp only [duplicate?, first?_append_singleton, hfirst, Option.some_or]

theorem filterMap_duplicate?_append (ms : List ModuleRecord) (r : ModuleRecord) :
    (ms ++ [r]).filterMap (duplicate? (ms ++ [r])) =
      ms.filterMap (duplicate? ms) ++ (duplicate? (ms ++ [r]) r).toList := by
  have hfront : ms.filterMap (duplicate? (ms ++ [r])) = ms.filterMap (duplicate? ms) :=
    List.filterMap_congr fun m hm => duplicate?_append hm r
  rw [List.filterMap_append, hfront]
  cases h : duplicate? (ms ++ [r]) r with
  | none => rw [List.filterMap_cons_none h]; rfl
  | some w => rw [List.filterMap_cons_some h]; rfl

/-- What is reported when a module is recorded is what is to be reported of it. -/
theorem DeclaresFirst.record_warnings (h : DeclaresFirst d) (m : ModuleRecord) :
    (d.record m).warnings = d.warnings ++ (duplicate? (d.modules ++ [m]) m).toList := by
  have hid := h m.id
  unfold Discovery.record duplicate?
  rw [first?_append_singleton, hid]
  cases hfirst : first? d.modules m.id with
  | none => simp
  | some first =>
      by_cases hp : first.path = m.path
      · simp [hp]
      · simp [hp, warn]

theorem ReportsDuplicates.record (h : ReportsDuplicates d) (hfirst : DeclaresFirst d)
    (m : ModuleRecord) : ReportsDuplicates (d.record m) := by
  have hall : (duplicate? (d.modules ++ [m]) m).toList.filter Warning.isDuplicate =
      (duplicate? (d.modules ++ [m]) m).toList := by
    refine List.filter_eq_self.mpr fun w hw => ?_
    obtain ⟨first, -, hw⟩ := Option.bind_eq_some_iff.mp (Option.mem_toList.mp hw)
    split at hw
    · cases hw
    · cases hw
      rfl
  rw [ReportsDuplicates, hfirst.record_warnings, List.filter_append, hall, record_modules,
    filterMap_duplicate?_append, h]

theorem Does.record_or_same_duplicates {j : Job} {new : List Job} (h : Does view s j d new d') :
    (∃ o m, j = .record o m ∧ d' = d.record (recordOf s o m)) ∨
      (d'.modules = d.modules ∧
        d'.warnings.filter Warning.isDuplicate = d.warnings.filter Warning.isDuplicate) := by
  cases h with
  | recorded => exact .inl ⟨_, _, rfl, rfl⟩
  | arity =>
      refine .inr ⟨checkArity_modules .., ?_⟩
      unfold checkArity
      split
      · rfl
      · simp [warn, say, Warning.isDuplicate]
  | circular => exact .inr ⟨rfl, by simp [warn, say, Warning.isDuplicate]⟩
  | opened _ hfetch _ =>
      obtain ⟨cache, -, rfl⟩ := fetch_eq_ok hfetch
      exact .inr ⟨rfl, rfl⟩
  | _ => exact .inr ⟨rfl, rfl⟩

theorem ReportsDuplicates.step (h : ReportsDuplicates c.found) (hfirst : DeclaresFirst c.found)
    (hs : Step view s c c') : ReportsDuplicates c'.found := by
  obtain ⟨hj⟩ := hs
  rcases hj.record_or_same_duplicates with ⟨o, m, -, rfl⟩ | ⟨hm, hw⟩
  · exact h.record hfirst _
  · rw [ReportsDuplicates, hw, hm]
    exact h

theorem reportsDuplicates_of_steps {es : List String} {cache : FileCache} {log : List Message}
    (hs : Steps view s (opening es cache log) c) : ReportsDuplicates c.found := by
  induction hs with
  | refl => rfl
  | tail hc hstep ih => exact ih.step (declaresFirst_of_steps hc) hstep

/-- The duplicates reported by a discovery are one for each module whose file is not that of the
first module with its id, with both files, in the order of the modules. -/
theorem duplicates_reported {cache : FileCache} (h : run view s cache = .ok d) :
    d.warnings.filter Warning.isDuplicate =
      d.modules.filterMap fun m => (d.modules.find? (·.id == m.id)).bind fun first =>
        if first.path = m.path then none else some (.duplicateId m.id first.path m.path) := by
  obtain ⟨es, log, -, hs, -⟩ := steps_of_run h
  exact reportsDuplicates_of_steps hs

end

/-- Two files that declare the same ids; the one that is asked for is the first to do so. -/
def declaringAlike : Options :=
  inlineOptions ["p.js"]
    [("p.js", "define('p', ['q'], (q) => 0); define('q', [], () => 0)"),
      ("q.js", "define('q', [], () => 0); define('p', [], () => 0)")]

theorem duplicates_reported_alike : ∃ (s : Settings) (d : Discovery),
    declaringAlike.settings "/" = .ok s ∧ run (Listing.view ∅) s .empty = .ok d ∧
      d.warnings.filter Warning.isDuplicate =
        [.duplicateId "p" "/q.js" "/p.js", .duplicateId "q" "/q.js" "/p.js"] := by
  have hfound : (inlineRun declaringAlike).map
      (fun r => r.2.modules.filterMap (duplicate? r.2.modules)) =
        some [.duplicateId "p" "/q.js" "/p.js", .duplicateId "q" "/q.js" "/p.js"] := by
    decide +kernel
  obtain ⟨⟨s, d⟩, hrun, hall⟩ := Option.map_eq_some_iff.mp hfound
  obtain ⟨hs, hd⟩ := of_inlineRun hrun
  exact ⟨s, d, hs, hd, (duplicates_reported hd).trans hall⟩

end Discovery

end DefineBundle
