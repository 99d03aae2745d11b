import DefineBundle.Proofs.Discovery.Order

/-!
# When a cycle is reported

A discovery as the list of the jobs that were done, each with the states before and after it. The
warnings of a discovery are those that its jobs issue, one job after the other, and a cycle is
reported at dependencies only.

A dependency on a file that is still being loaded is no cycle when the file has recorded the id that
is asked for. What is asked is less than that: only the file of the first module recorded with an id
is remembered. So when another file was the first, a cycle is reported although the module is there;
when an id belongs to one file, exactly the missing modules are reported.
-/
namespace DefineBundle.Discovery

open DefineBundle.Script (Declaration)
open Relation (ReflTransGen)

/-- A job that was done. -/
structure Work where
  job : Job
  before : Discovery
  after : Discovery

def Work.issued (w : Work) : List Warning :=
  w.after.warnings.drop w.before.warnings.length

/-- The jobs done between two stages, in their order. -/
inductive Worked (view : FileView) (s : Settings) : Stage → List Work → Stage → Prop
  | nil (c : Stage) : Worked view s c [] c
  | cons {j : Job} {js new : List Job} {d d' : Discovery} {ws : List Work} {c : Stage} :
      Does view s j d new d' → Worked view s ⟨new ++ js, d'⟩ ws c →
      Worked view s ⟨j :: js, d⟩ (⟨j, d, d'⟩ :: ws) c

section
variable {view : FileView} {s : Settings} {c c' : Stage} {ws : List Work} {d d' : Discovery}
variable {j : Job} {new : List Job}

theorem exists_worked (h : Steps view s c c') : ∃ ws, Worked view s c ws c' := by
  induction h using ReflTransGen.head_induction_on with
  | refl => exact ⟨[], .nil c'⟩
  | head hstep _ ih =>
      obtain ⟨ws, hws⟩ := ih
      obtain ⟨hj⟩ := hstep
      exact ⟨_, .cons hj hws⟩

theorem Worked.exists_stage (h : Worked view s c ws c') {w : Work} (hw : w ∈ ws) :
    ∃ js new ws', Steps view s c ⟨w.job :: js, w.before⟩ ∧ Does view s w.job w.before new w.after ∧
      Worked view s ⟨new ++ js, w.after⟩ ws' c' := by
  induction h with
  | nil => cases hw
  | cons hj hrest ih =>
      rcases List.mem_cons.mp hw with rfl | hw
      · exact ⟨_, _, _, .refl, hj, hrest⟩
      · obtain ⟨js, new, ws', hsteps, hdoes, hrest⟩ := ih hw
        exact ⟨js, new, ws', .head (.job hj) hsteps, hdoes, hrest⟩

/-- A job issues no more than one warning: that of an arity, of a cycle or of a duplicate. -/
theorem Does.warnings (h : Does view s j d new d') : d'.warnings = d.warnings ∨
    (∃ o m, j = .arity o m ∧
      d'.warnings = d.warnings ++ [.arityMismatch m.id o.path m.deps.length m.params]) ∨
    (∃ o m dep, j = .dependency o m dep ∧ Follows s m.id dep ∧ s.pathOf dep ∈ d.loading ∧
      d.declaredIn.get? dep ≠ some (s.pathOf dep) ∧
      d'.warnings = d.warnings ++ [.circularDependency (s.pathOf dep)]) ∨
    ∃ o m first, j = .record o m ∧
      d'.warnings = d.warnings ++ [.duplicateId m.id first o.path] := by
  cases h with
  | @arity o m =>
      unfold checkArity
      split
      · exact .inl rfl
      · exact .inr (.inl ⟨o, m, rfl, rfl⟩)
  | circular hf hl hne => exact .inr (.inr (.inl ⟨_, _, _, rfl, hf, hl, hne, rfl⟩))
  | @recorded o m =>
      unfold record
      split
      · split
        · exact .inl rfl
        · exact .inr (.inr (.inr ⟨o, m, _, rfl, rfl⟩))
      · exact .inl rfl
  | opened _ hfetch _ =>
      obtain ⟨cache, -, rfl⟩ := fetch_eq_ok hfetch
      exact .inl rfl
  | known _ => exact .inl rfl
  | skipped _ => exact .inl rfl
  | declared _ _ _ => exact .inl rfl
  | followed _ _ => exact .inl rfl
  | left => exact .inl rfl

theorem Does.warnings_eq (h : Does view s j d new d') :
    d'.warnings = d.warnings ++ (Work.mk j d d').issued := by
  have happend : ∀ ws, d'.warnings = d.warnings ++ ws →
      d'.warnings = d.warnings ++ (Work.mk j d d').issued := by
    intro ws hws
    rw [Work.issued, hws, List.drop_left]
  rcases h.warnings with h | ⟨_, _, -, h⟩ | ⟨_, _, _, -, -, -, -, h⟩ | ⟨_, _, _, -, h⟩
  · exact happend [] (by rw [h, List.append_nil])
  all_goals exact happend _ h

theorem Worked.warnings_eq (h : Worked view s c ws c') :
    c'.found.warnings = c.found.warnings ++ ws.flatMap Work.issued := by
  induction h with
  | nil => simp
  | cons hj _ ih => rw [ih, hj.warnings_eq, List.flatMap_cons, List.append_assoc]

/-- What a job issues stands behind all that was issued before. -/
theorem Worked.issued_stands (h : Worked view s c ws c') {w : Work} (hw : w ∈ ws) :
    ∃ later, c'.found.warnings = w.before.warnings ++ w.issued ++ later := by
  obtain ⟨js, new, ws', -, hdoes, hrest⟩ := h.exists_stage hw
  exact ⟨ws'.flatMap Work.issued, by rw [hrest.warnings_eq, hdoes.warnings_eq]⟩

/-- Only at a dependency on a file that is being loaded a cycle is reported. -/
theorem Does.circular_mem_issued_iff (h : Does view s j d new d') {p : String} :
    .circularDependency p ∈ (Work.mk j d d').issued ↔
      ∃ o m dep, j = .dependency o m dep ∧ p = s.pathOf dep ∧ Follows s m.id dep ∧
        p ∈ d.loading ∧ d.declaredIn.get? dep ≠ some p := by
  constructor
  · intro hp
    rcases h.warnings with he | ⟨o, m, -, he⟩ | ⟨o, m, dep, rfl, hf, hl, hne, he⟩ | ⟨o, m, f, -, he⟩
    · simp [Work.issued, he] at hp
    · simp [Work.issued, he] at hp
    · simp only [Work.issued, he, List.drop_left, List.mem_singleton,
        Warning.circularDependency.injEq] at hp
      exact ⟨o, m, dep, rfl, hp, hf, hp ▸ hl, hp ▸ hne⟩
    · simp [Work.issued, he] at hp
  · rintro ⟨o, m, dep, rfl, rfl, hf, hl, hne⟩
    cases h with
    | skipped hno => exact absurd hf hno
    | declared _ _ he => exact absurd he hne
    | circular _ _ _ => simp [Work.issued, warn]
    | followed _ hno => exact absurd hl hno

theorem Does.issued_of_circular (h : Does view s j d new d') {p : String}
    (hp : .circularDependency p ∈ (Work.mk j d d').issued) :
    (Work.mk j d d').issued = [.circularDependency p] := by
  rcases h.warnings with he | ⟨_, _, -, he⟩ | ⟨_, _, _, -, -, -, -, he⟩ | ⟨_, _, _, -, he⟩
  · simp [Work.issued, he] at hp
  · simp [Work.issued, he] at hp
  · simp only [Work.issued, he, List.drop_left, List.mem_singleton] at hp ⊢
    rw [hp]
  · simp [Work.issued, he] at hp

/-- The module that was the first to be recorded with an id. -/
def first? (ms : List ModuleRecord) (id : String) : Option ModuleRecord :=
  ms.find? (·.id == id)

/-- An id belongs to the file of the first module recorded with it. -/
def DeclaresFirst (d : Discovery) : Prop :=
  ∀ id, d.declaredIn.get? id = (first? d.modules id).map ModuleRecord.path

theorem first?_append_singleton (ms : List ModuleRecord) (m : ModuleRecord) (id : String) :
    first? (ms ++ [m]) id = (first? ms id).or (if id = m.id then some m else none) := by
  rw [first?, first?, List.find?_append, List.find?_singleton]
  by_cases h : id = m.id
  · simp [h]
  · simp [h, Ne.symm h]

theorem DeclaresFirst.record (h : DeclaresFirst d) (m : ModuleRecord) :
    DeclaresFirst (d.record m) := by
  intro id
  rw [record_declaredIn, record_modules, first?_append_singleton, h id, Option.map_or]
  split <;> rfl

theorem DeclaresFirst.step (h : DeclaresFirst c.found) (hs : Step view s c c') :
    DeclaresFirst c'.found := by
  obtain ⟨hj⟩ := hs
  rcases hj.record_or_eq with ⟨o, m, -, -, rfl⟩ | ⟨hm, hd⟩
  · exact h.record _
  · intro id
    dsimp only
    rw [hd, hm]
    exact h id

theorem declaresFirst_of_steps {es : List String} {cache : FileCache} {log : List Message}
    (hs : Steps view s (opening es cache log) c) : DeclaresFirst c.found := by
  induction hs with
  | refl =>
      intro id
      simp [opening, start, first?]
  | tail _ hstep ih => exact ih.step hstep

/-- Every dependency of a module that was recorded was dealt with before, or is `Done` already. -/
theorem Worked.exists_dependency (h : Worked view s c ws c')
    {Done : Origin → Declaration → String → Prop}
    (hawaited : ∀ js₁ o m js₂, c.agenda = js₁ ++ .record o m :: js₂ →
      ∀ dep ∈ m.deps, .dependency o m dep ∈ js₁ ∨ Done o m dep) {r : ModuleRecord}
    (hr : r ∈ c'.found.modules) : r ∈ c.found.modules ∨ ∃ o m, recordOf s o m = r ∧
      ∀ dep ∈ m.deps, (∃ w ∈ ws, w.job = .dependency o m dep) ∨ Done o m dep := by
  induction h generalizing Done with
  | nil => exact .inl hr
  | @cons j js new d d' ws c' hj _ ih =>
      have hdone := @ih (fun o m dep => j = .dependency o m dep ∨ Done o m dep) ?_ hr
      · rcases hdone with hmem | ⟨o, m, hrecord, hdeps⟩
        · rcases hj.record_or_eq with ⟨o, m, rfl, rfl, rfl⟩ | ⟨hsame, -⟩
          · rcases List.mem_append.mp (record_modules .. ▸ hmem) with hmem | hmem
            · exact .inl hmem
            · refine .inr ⟨o, m, (List.mem_singleton.mp hmem).symm, fun dep hdep => ?_⟩
              refine .inr ((hawaited [] o m js rfl dep hdep).resolve_left ?_)
              exact List.not_mem_nil
          · exact .inl (hsame ▸ hmem)
        · refine .inr ⟨o, m, hrecord, fun dep hdep => ?_⟩
          rcases hdeps dep hdep with ⟨w, hw, he⟩ | rfl | hdone
          · exact .inl ⟨w, List.mem_cons_of_mem _ hw, he⟩
          · exact .inl ⟨_, List.mem_cons_self, rfl⟩
          · exact .inr hdone
      · intro js₁ o m js₂ he dep hdep
        rcases append_eq_append_cons he with ⟨k, hk, -⟩ | ⟨k, rfl, hk⟩
        · obtain ⟨path, t, ms, rfl⟩ := hj.opened_of_record_mem (show .record o m ∈ new by simp [hk])
          exact .inl (dependency_mem_of_jobsOfFile hk hdep)
        · rcases hawaited (j :: k) o m js₂ (by rw [hk]; rfl) dep hdep with hmem | hdone
          · rcases List.mem_cons.mp hmem with rfl | hmem
            · exact .inr (.inl rfl)
            · exact .inl (List.mem_append_right _ hmem)
          · exact .inr (.inr hdone)

theorem exists_dependency_of_worked {es : List String} {cache : FileCache} {log : List Message}
    (h : Worked view s (opening es cache log) ws c) {r : ModuleRecord} (hr : r ∈ c.found.modules)
    {dep : String} (hdep : dep ∈ r.deps) :
    ∃ w ∈ ws, ∃ o m, recordOf s o m = r ∧ w.job = .dependency o m dep := by
  have hnone : ∀ js₁ o m js₂, (opening es cache log).agenda = js₁ ++ .record o m :: js₂ →
      ∀ dep ∈ m.deps, Job.dependency o m dep ∈ js₁ ∨ False := by
    intro js₁ o m js₂ he
    have hmem : Job.record o m ∈ es.map (Job.file · none) := by
      rw [show es.map (Job.file · none) = _ from he]
      simp
    simp at hmem
  rcases h.exists_dependency hnone hr with hmem | ⟨o, m, rfl, hdeps⟩
  · simp [opening, start] at hmem
  · obtain ⟨w, hw, he⟩ := (hdeps dep hdep).resolve_right id
    exact ⟨w, hw, o, m, rfl, he⟩

/-- A cycle is reported at a dependency on a file that is still being loaded, unless the first
module recorded with the id is in that file. -/
theorem circular_mem_issued_iff {es : List String} {cache : FileCache} {log : List Message}
    (h : Worked view s (opening es cache log) ws c) {w : Work} (hw : w ∈ ws) {p : String} :
    .circularDependency p ∈ w.issued ↔
      ∃ o m dep, w.job = .dependency o m dep ∧ p = s.pathOf dep ∧ Follows s m.id dep ∧
        p ∈ w.before.loading ∧ ∀ r ∈ first? w.before.modules dep, r.path ≠ p := by
  obtain ⟨js, new, -, hsteps, hdoes, -⟩ := h.exists_stage hw
  have hfirst := declaresFirst_of_steps hsteps
  have hdeclared : ∀ dep, w.before.declaredIn.get? dep ≠ some p ↔
      ∀ r ∈ first? w.before.modules dep, r.path ≠ p := by
    intro dep
    rw [hfirst dep]
    cases first? w.before.modules dep <;> simp
  rw [hdoes.circular_mem_issued_iff]
  simp only [hdeclared]

/-- The first module with an id is in a file when there is one in it and no other file has one. -/
theorem forall_first?_iff {ms : List ModuleRecord} {id p : String}
    (h : ∀ r ∈ ms, ∀ r' ∈ ms, r.id = id → r'.id = id → r.path = r'.path) :
    (∀ r ∈ first? ms id, r.path ≠ p) ↔ ¬ ∃ r ∈ ms, r.id = id ∧ r.path = p := by
  constructor
  · rintro hfirst ⟨r, hr, hid, hpath⟩
    have hsome : (first? ms id).isSome = true := by
      rw [first?, List.find?_isSome]
      exact ⟨r, hr, by simpa using hid⟩
    obtain ⟨q, hq⟩ := Option.isSome_iff_exists.mp hsome
    have hqid : q.id = id := by simpa using List.find?_some hq
    exact hfirst q hq ((h q (List.mem_of_find?_eq_some hq) r hr hqid hid).trans hpath)
  · rintro hno r hr hpath
    exact hno ⟨r, List.mem_of_find?_eq_some hr, by simpa using List.find?_some hr, hpath⟩

/-- The warnings of a discovery are those that its jobs issue, and every dependency of a recorded
module is one of these jobs. A cycle is reported at a dependency on a file that is still being
loaded, unless the first module recorded with the id is in that file. When all modules with the id
are in one file, that is unless the module asked for has been recorded. -/
theorem circular_reported_iff {cache : FileCache} (h : run view s cache = .ok d) :
    ∃ es log ws, entries view s = .ok es ∧ Worked view s (opening es cache log) ws ⟨[], d⟩ ∧
      d.warnings = ws.flatMap Work.issued ∧
      (∀ r ∈ d.modules, ∀ dep ∈ r.deps,
        ∃ w ∈ ws, ∃ o m, recordOf s o m = r ∧ w.job = .dependency o m dep) ∧
      (∀ w ∈ ws, ∀ p, .circularDependency p ∈ w.issued ↔
        ∃ o m dep, w.job = .dependency o m dep ∧ p = s.pathOf dep ∧ Follows s m.id dep ∧
          p ∈ w.before.loading ∧ ∀ r ∈ first? w.before.modules dep, r.path ≠ p) ∧
      ∀ w ∈ ws, ∀ o m dep, w.job = .dependency o m dep →
        (∀ r ∈ w.before.modules, ∀ r' ∈ w.before.modules, r.id = dep → r'.id = dep →
          r.path = r'.path) →
        (.circularDependency (s.pathOf dep) ∈ w.issued ↔
          Follows s m.id dep ∧ s.pathOf dep ∈ w.before.loading ∧
            ¬ ∃ r ∈ w.before.modules, r.id = dep ∧ r.path = s.pathOf dep) := by
  obtain ⟨es, log, hes, hsteps, -⟩ := steps_of_run h
  obtain ⟨ws, hws⟩ := exists_worked hsteps
  have hwarnings := hws.warnings_eq
  refine ⟨es, log, ws, hes, hws, ?_, fun r hr dep hdep => exists_dependency_of_worked hws hr hdep,
    fun w hw p => circular_mem_issued_iff hws hw, fun w hw o m dep hjob hone => ?_⟩
  · simpa [opening, start] using hwarnings
  · rw [circular_mem_issued_iff hws hw, ← forall_first?_iff hone]
    constructor
    · rintro ⟨o', m', dep', hjob', hpath, hf, hl, hfirst⟩
      obtain ⟨rfl, rfl, rfl⟩ := Job.dependency.inj (hjob.symm.trans hjob')
      exact ⟨hf, hl, hfirst⟩
    · rintro ⟨hf, hl, hfirst⟩
      exact ⟨o, m, dep, hjob, rfl, hf, hl, hfirst⟩

end

def askingEachOther : Options :=
  inlineOptions ["a.js"]
    [("a.js", "define('a', ['b'], (b) => 0)"), ("b.js", "define('b', ['a'], (a) => 0)")]

theorem circular_reported_mutual : ∃ (s : Settings) (d : Discovery) (ws : List Work),
    askingEachOther.settings "/" = .ok s ∧ run (Listing.view ∅) s .empty = .ok d ∧
      d.warnings = ws.flatMap Work.issued ∧
      ∃ w ∈ ws, .circularDependency "/a.js" ∈ w.issued ∧ ∃ o m dep, w.job = .dependency o m dep ∧
        s.pathOf dep = "/a.js" ∧ "/a.js" ∈ w.before.loading := by
  have hfound : (inlineRun askingEachOther).map (fun r => r.2.warnings) =
      some [.circularDependency "/a.js"] := by
    decide +kernel
  obtain ⟨⟨s, d⟩, hrun, hwarnings⟩ := Option.map_eq_some_iff.mp hfound
  obtain ⟨hs, hd⟩ := of_inlineRun hrun
  obtain ⟨es, log, ws, -, -, hissued, -, hiff, -⟩ := circular_reported_iff hd
  have hmem : .circularDependency "/a.js" ∈ ws.flatMap Work.issued := by
    rw [← hissued]
    exact hwarnings ▸ List.mem_singleton_self _
  obtain ⟨w, hw, hcircular⟩ := List.mem_flatMap.mp hmem
  obtain ⟨o, m, dep, hjob, hpath, -, hl, -⟩ := (hiff w hw _).mp hcircular
  exact ⟨s, d, ws, hs, hd, hissued, w, hw, hcircular, o, m, dep, hjob, hpath.symm, hl⟩

section
variable {view : FileView} {s : Settings} {c c' : Stage} {ws : List Work}

theorem Worked.modules_stand (h : Worked view s c ws c') :
    ∃ later, c'.found.modules = c.found.modules ++ later := by
  induction h with
  | nil => exact ⟨[], by simp⟩
  | cons hj _ ih =>
      obtain ⟨later, hlater⟩ := ih
      rcases hj.record_or_eq with ⟨o, m, -, -, rfl⟩ | ⟨hsame, -⟩
      · exact ⟨recordOf s o m :: later, by simp [hlater]⟩
      · exact ⟨later, by rw [hlater, ← hsame]⟩

/-- A duplicate is reported for a module that is recorded with the report. -/
theorem exists_of_duplicate {es : List String} {cache : FileCache} {log : List Message}
    (hs : Steps view s (opening es cache log) c) {id first p : String}
    (h : .duplicateId id first p ∈ c.found.warnings) :
    ∃ r ∈ c.found.modules, r.id = id ∧ r.path = p := by
  induction hs with
  | refl => simp [opening, start] at h
  | tail _ hstep ih =>
      obtain @⟨j, js, new, d, d', hj⟩ := hstep
      obtain ⟨later, hlater⟩ := (Worked.cons hj (.nil ⟨new ++ js, d'⟩)).modules_stand
      have hold : .duplicateId id first p ∈ d.warnings → ∃ r ∈ d'.modules, r.id = id ∧ r.path = p :=
        fun hold => (ih hold).imp fun r hr => ⟨hlater ▸ List.mem_append_left _ hr.1, hr.2⟩
      rcases hj.warnings with he | ⟨o, m, -, he⟩ | ⟨o, m, dep, -, -, -, -, he⟩ | ⟨o, m, f, rfl, he⟩
      · exact hold (he ▸ h)
      · exact hold (by simpa [he] using h)
      · exact hold (by simpa [he] using h)
      · rcases List.mem_append.mp (he ▸ h) with h | h
        · exact hold h
        · simp only [List.mem_singleton, Warning.duplicateId.injEq] at h
          obtain ⟨rfl, -, rfl⟩ := h
          cases hj with
          | recorded => exact ⟨recordOf s o m, by simp, rfl, rfl⟩

end

/-- A file that declares `p` after it has asked for another file, which declares `p` as well. -/
def redeclared : Options :=
  inlineOptions ["p.js"]
    [("p.js", "define('p', ['q'], (q) => 0); define('z', ['p'], (p) => 0)"),
      ("q.js", "define('q', [], () => 0); define('p', [], () => 0)")]

/-- A cycle is reported at a dependency on a module that its own file has recorded. -/
theorem circular_recorded_dependency : ∃ (s : Settings) (d : Discovery) (es : List String)
    (log : List Message) (ws : List Work), redeclared.settings "/" = .ok s ∧
      run (Listing.view ∅) s .empty = .ok d ∧ entries (Listing.view ∅) s = .ok es ∧
      Worked (Listing.view ∅) s (opening es .empty log) ws ⟨[], d⟩ ∧
      ∃ w ∈ ws, ∃ o m, w.job = .dependency o m "p" ∧ s.pathOf "p" = "/p.js" ∧
        .circularDependency "/p.js" ∈ w.issued ∧
        ∃ r ∈ w.before.modules, r.id = "p" ∧ r.path = "/p.js" := by
  have hfound : (inlineRun redeclared).any (fun r =>
      r.2.warnings == [.duplicateId "p" "/q.js" "/p.js", .circularDependency "/p.js"] &&
      r.2.modules.map (fun m => (m.id, m.path, m.deps)) == [("q", "/q.js", []), ("p", "/q.js", []),
        ("p", "/p.js", ["q"]), ("z", "/p.js", ["p"])] &&
      (first? r.2.modules "p").map ModuleRecord.path == some "/q.js" &&
      r.1.pathOf "p" == "/p.js" && r.1.includes "p") = true := by
    decide +kernel
  obtain ⟨⟨s, d⟩, hrun, he⟩ := Option.any_eq_true _ _ |>.mp hfound
  simp only [Bool.and_eq_true, beq_iff_eq] at he
  obtain ⟨⟨⟨⟨hwarnings, hmodules⟩, hfirst⟩, hpath⟩, hincludes⟩ := he
  obtain ⟨hs, hd⟩ := of_inlineRun hrun
  obtain ⟨es, log, hes, hsteps, -⟩ := steps_of_run hd
  obtain ⟨ws, hws⟩ := exists_worked hsteps
  refine ⟨s, d, es, log, ws, hs, hd, hes, hws, ?_⟩
  obtain ⟨z, hz, hzid, hzpath, hzdeps⟩ : ∃ z ∈ d.modules, z.id = "z" ∧ z.path = "/p.js" ∧
      z.deps = ["p"] := by
    have hmem : ("z", "/p.js", ["p"]) ∈ d.modules.map fun m => (m.id, m.path, m.deps) := by
      simp [hmodules]
    simpa using hmem
  obtain ⟨w, hw, o, m, rfl, hjob⟩ :=
    exists_dependency_of_worked hws hz (show "p" ∈ z.deps by simp [hzdeps])
  obtain ⟨js, new, ws', hbefore, hdoes, hafter⟩ := hws.exists_stage hw
  -- the module of the other file is the first with the id at every stage
  have hother : ∀ r ∈ first? w.before.modules "p", r.path ≠ "/p.js" := by
    intro r hr hrpath
    obtain ⟨later, hlater⟩ := (Worked.cons hdoes hafter).modules_stand
    have hr' : first? d.modules "p" = some r := by
      rw [first?, hlater, List.find?_append, ← first?, Option.mem_def.mp hr, Option.some_or]
    rw [hr'] at hfirst
    exact absurd (hrpath.symm.trans (Option.some.inj hfirst)) (by decide)
  have hloading : "/p.js" ∈ w.before.loading := by
    have horigin := (ordered_of_steps hbefore).1.origin_loading (o := o) (by rw [hjob]; rfl)
    exact hzpath ▸ horigin
  have hcircular : .circularDependency "/p.js" ∈ w.issued :=
    (circular_mem_issued_iff hws hw).mpr ⟨o, m, "p", hjob, hpath.symm,
      ⟨fun he => absurd (he.trans hzid) (by decide), hincludes⟩, hloading, hother⟩
  have hduplicate : .duplicateId "p" "/q.js" "/p.js" ∈ w.before.warnings := by
    obtain ⟨later, hlater⟩ := hws.issued_stands hw
    rw [hdoes.issued_of_circular hcircular, hwarnings] at hlater
    cases hissued : w.before.warnings with
    | nil => simp [hissued] at hlater
    | cons x xs =>
        rw [hissued, List.cons_append, List.cons_append] at hlater
        simp [(List.cons.inj hlater).1]
  exact ⟨w, hw, o, m, hjob, hpath, hcircular, exists_of_duplicate hbefore hduplicate⟩

end DefineBundle.Discovery
