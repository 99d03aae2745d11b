import DefineBundle.Proofs.Discovery.Agenda

/-!
# The order of modules

A module is recorded after what it depends on. When a declaration comes to be recorded, each of its
dependencies has been dealt with in one of three ways: its file is done, so all modules of that file
stand in front; or its file is still being loaded and has declared the id, so that module stands in
front; or a cycle has been reported. A cycle of dependencies between modules never goes without a
report, because without one each module on it would stand in front of itself.
-/
namespace DefineBundle.Discovery

open DefineBundle.Script (Declaration)
open Relation (TransGen)

/-- What a dependency `dep` of the module at position `i` says about the modules in front of it: its
file is done and all in front, or it is in front itself, or a cycle is reported. -/
def ServedAt (s : Settings) (d : Discovery) (i : Nat) (dep : String) : Prop :=
  (s.pathOf dep ∉ d.loading ∧
      ∀ (j : Nat) (r : ModuleRecord), d.modules[j]? = some r → r.path = s.pathOf dep → j < i) ∨
    (∃ (j : Nat) (r : ModuleRecord), j < i ∧ d.modules[j]? = some r ∧ r.id = dep ∧
      r.path = s.pathOf dep) ∨
    .circularDependency (s.pathOf dep) ∈ d.warnings

/-- A dependency that is dealt with before the next module is recorded. -/
def Handled (s : Settings) (d : Discovery) (dep : String) : Prop :=
  s.pathOf dep ∈ d.visited ∧
    (s.pathOf dep ∉ d.loading ∨ (∃ r ∈ d.modules, r.id = dep ∧ r.path = s.pathOf dep) ∨
      .circularDependency (s.pathOf dep) ∈ d.warnings)

/-- A dependency of `m` that is dealt with once the jobs `js` are done. -/
def Awaited (s : Settings) (d : Discovery) (js : List Job) (o : Origin) (m : Declaration)
    (dep : String) : Prop :=
  .dependency o m dep ∈ js ∨
    (s.pathOf dep ∉ d.loading ∧ ∃ referrer, .file (s.pathOf dep) referrer ∈ js) ∨
    .leave (s.pathOf dep) ∈ js ∨ Handled s d dep

/-- What holds of the order of modules at every stage: an id belongs to a file that has declared it,
a declaration is recorded after its dependencies are dealt with, and the dependencies of a module
are served at its place. -/
structure Ordered (s : Settings) (c : Stage) : Prop where
  declared : ∀ id p, c.found.declaredIn.get? id = some p →
    ∃ r ∈ c.found.modules, r.id = id ∧ r.path = p
  awaited : ∀ js₁ o m js₂, c.agenda = js₁ ++ .record o m :: js₂ →
    ∀ dep ∈ m.deps, Follows s m.id dep → Awaited s c.found js₁ o m dep
  served : ∀ (i : Nat) (m : ModuleRecord), c.found.modules[i]? = some m →
    ∀ dep ∈ m.deps, Follows s m.id dep →
      s.pathOf dep ∈ c.found.visited ∧ ServedAt s c.found i dep

section
variable {view : FileView} {s : Settings} {d d' : Discovery} {dep : String}

theorem Handled.mono (hg : Grows d d') (h : Handled s d dep) : Handled s d' dep := by
  obtain ⟨hv, hl | ⟨r, hr, he⟩ | hw⟩ := h
  · exact ⟨hg.visited hv, .inl (hg.loading _ hv hl)⟩
  · obtain ⟨new, hm, -⟩ := hg.modules
    exact ⟨hg.visited hv, .inr (.inl ⟨r, by simp [hm, hr], he⟩)⟩
  · exact ⟨hg.visited hv, .inr (.inr (hg.warnings hw))⟩

theorem ServedAt.mono {i : Nat} (hg : Grows d d') (hv : s.pathOf dep ∈ d.visited)
    (h : ServedAt s d i dep) : ServedAt s d' i dep := by
  obtain ⟨new, hm, hnew⟩ := hg.modules
  rcases h with ⟨hl, hall⟩ | ⟨j, r, hj, hr, he⟩ | hw
  · refine .inl ⟨hg.loading _ hv hl, fun j r hr hp => ?_⟩
    rw [hm] at hr
    rcases Nat.lt_or_ge j d.modules.length with hj | hj
    · exact hall j r (by rwa [List.getElem?_append_left hj] at hr) hp
    · rw [List.getElem?_append_right hj] at hr
      exact absurd (hp ▸ hnew r (List.mem_of_getElem? hr)) hl
  · have hlt := (List.getElem?_eq_some_iff.mp hr).choose
    exact .inr (.inl ⟨j, r, hj, by rwa [hm, List.getElem?_append_left hlt], he⟩)
  · exact .inr (.inr (hg.warnings hw))

/-- A dependency that is dealt with is served at the next place, unless the next module is in its
own file. -/
theorem Handled.servedAt {r : ModuleRecord} (h : Handled s d dep) (hr : r.path ∈ d.loading) :
    ServedAt s (d.record r) d.modules.length dep := by
  obtain ⟨-, hl | ⟨q, hq, he⟩ | hw⟩ := h
  · refine .inl ⟨by simpa using hl, fun j q hq hp => ?_⟩
    rw [record_modules] at hq
    rcases Nat.lt_trichotomy j d.modules.length with hj | rfl | hj
    · exact hj
    · simp only [List.getElem?_concat_length, Option.some.injEq] at hq
      exact absurd (hp ▸ hq ▸ hr) hl
    · rw [List.getElem?_eq_none (by simp; omega)] at hq
      cases hq
  · obtain ⟨j, hj, rfl⟩ := List.mem_iff_getElem.mp hq
    refine .inr (.inl ⟨j, _, hj, ?_, he⟩)
    rw [record_modules, List.getElem?_append_left hj, List.getElem?_eq_getElem hj]
  · exact .inr (.inr (subset_of_eq_or_append (record_warnings ..) hw))

/-- In the jobs of a file the dependencies of a declaration stand before its record. -/
theorem dependency_mem_of_jobsOfFile {o o' : Origin} {ms : List Declaration} {m : Declaration}
    {js₁ js₂ : List Job} (h : jobsOfFile o ms = js₁ ++ .record o' m :: js₂) (hdep : dep ∈ m.deps) :
    .dependency o' m dep ∈ js₁ := by
  induction ms generalizing js₁ with
  | nil =>
      have hmem : Job.record o' m ∈ [Job.leave o.path] := by
        rw [← show jobsOfFile o [] = [Job.leave o.path] from rfl, h]
        simp
      cases List.mem_singleton.mp hmem
  | cons n ms ih =>
      rw [jobsOfFile, List.flatMap_cons, List.append_assoc] at h
      rcases append_eq_append_cons h with ⟨k, hk, -⟩ | ⟨k, rfl, hk⟩
      · -- the only record among the jobs of a declaration is the last one
        rcases append_eq_append_cons hk with ⟨l, hl, -⟩ | ⟨l, hl, hlast⟩
        · have hmem : Job.record o' m ∈ Job.arity o n :: n.deps.map (.dependency o n) := by
            rw [hl]
            simp
          simp at hmem
        · cases l with
          | nil =>
              simp only [List.nil_append, List.cons.injEq, Job.record.injEq] at hlast
              obtain ⟨⟨rfl, rfl⟩, -⟩ := hlast
              rw [hl]
              simp [hdep]
          | cons x l => simp at hlast
      · exact List.mem_append_right _ (ih hk)

/-- Doing a job leaves no dependency of a later declaration behind. -/
theorem Awaited.step {j : Job} {js new rest : List Job} {o : Origin} {m : Declaration}
    (hn : Nested view s ⟨j :: js, d⟩) (hj : Does view s j d new d')
    (hdec : ∀ id p, d.declaredIn.get? id = some p → ∃ r ∈ d.modules, r.id = id ∧ r.path = p)
    (hf : Follows s m.id dep) (h : Awaited s d (j :: rest) o m dep) :
    Awaited s d' (new ++ rest) o m dep := by
  rcases h with h | ⟨hl, referrer, h⟩ | h | h
  · -- its own job is done, or still there
    rcases List.mem_cons.mp h with rfl | h
    · cases hj with
      | skipped hno => exact absurd hf hno
      | declared _ hl he =>
          exact .inr (.inr (.inr ⟨hn.loading_visited _ hl, .inr (.inl (hdec _ _ he))⟩))
      | circular _ hl _ =>
          exact .inr (.inr (.inr ⟨hn.loading_visited _ hl, .inr (.inr (by simp [warn]))⟩))
      | followed _ hl => exact .inr (.inl ⟨hl, _, by simp; exact .inl rfl⟩)
    · exact .inl (List.mem_append_right _ h)
  · -- its file is opened, or found done, or still to be opened
    rcases List.mem_cons.mp h with rfl | h
    · cases hj with
      | known hv => exact .inr (.inr (.inr ⟨hv, .inl hl⟩))
      | opened => exact .inr (.inr (.inl (by simp [jobsOfFile, originOf])))
    · by_cases hl' : s.pathOf dep ∈ d'.loading
      · cases hj with
        | opened hnew hfetch _ =>
            obtain ⟨cache, -, rfl⟩ := fetch_eq_ok hfetch
            rcases List.mem_cons.mp hl' with he | hl'
            · exact .inr (.inr (.inl (by simp [jobsOfFile, originOf, he])))
            · exact absurd hl' hl
        | left => exact absurd (List.mem_of_mem_erase hl') hl
        | arity => exact absurd (by simpa using hl') hl
        | recorded => exact absurd (by simpa using hl') hl
        | known _ => exact absurd hl' hl
        | skipped _ => exact absurd hl' hl
        | declared _ _ _ => exact absurd hl' hl
        | circular _ _ _ => exact absurd hl' hl
        | followed _ _ => exact absurd hl' hl
      · exact .inr (.inl ⟨hl', referrer, List.mem_append_right _ h⟩)
  · -- its file is left, or still being loaded
    rcases List.mem_cons.mp h with rfl | h
    · have hload : d.loading = s.pathOf dep :: js.filterMap Job.leaves? := hn.loading
      have hmem : s.pathOf dep ∈ d.loading := by simp [hload]
      cases hj with
      | left =>
          refine .inr (.inr (.inr ⟨hn.loading_visited _ hmem, .inl ?_⟩))
          exact hn.loading_nodup.not_mem_erase
    · exact .inr (.inr (.inl (List.mem_append_right _ h)))
  · exact .inr (.inr (.inr (h.mono (hn.grows hj))))

theorem Ordered.step {c c' : Stage} (hn : Nested view s c) (h : Ordered s c)
    (hs : Step view s c c') : Ordered s c' := by
  obtain ⟨hj⟩ := hs
  rename_i j js new d d'
  have hg := hn.grows hj
  refine ⟨fun id p he => ?_, fun js₁ o m js₂ he dep hdep hf => ?_, fun i m hm dep hdep hf => ?_⟩
  · rcases hj.record_or_eq with ⟨o, m, rfl, rfl, rfl⟩ | ⟨hm, hd⟩
    · rw [record_declaredIn, Option.or_eq_some_iff] at he
      rcases he with he | ⟨-, he⟩
      · obtain ⟨r, hr, hre⟩ := h.declared id p he
        exact ⟨r, by simp [hr], hre⟩
      · split at he
        · rename_i hid
          exact ⟨recordOf s o m, by simp, hid.symm, Option.some.inj he⟩
        · cases he
    · rw [hd] at he
      rw [hm]
      exact h.declared id p he
  · rcases append_eq_append_cons he with ⟨k, hk, -⟩ | ⟨k, rfl, hk⟩
    · obtain ⟨path, t, ms, rfl⟩ := hj.opened_of_record_mem (show .record o m ∈ new by simp [hk])
      exact .inl (dependency_mem_of_jobsOfFile hk hdep)
    · have hw := h.awaited (j :: k) o m js₂ (by rw [hk]; rfl) dep hdep hf
      exact hw.step hn hj h.declared hf
  · obtain ⟨more, hmore, -⟩ := hg.modules
    rcases Nat.lt_or_ge i d.modules.length with hi | hi
    · rw [hmore, List.getElem?_append_left hi] at hm
      obtain ⟨hv, hserved⟩ := h.served i m hm dep hdep hf
      exact ⟨hg.visited hv, hserved.mono hg hv⟩
    · rcases hj.record_or_eq with ⟨o, n, rfl, rfl, rfl⟩ | ⟨hsame, -⟩
      · -- the module just recorded: all its dependencies have been dealt with
        obtain rfl : i = d.modules.length := by
          have hlt := (List.getElem?_eq_some_iff.mp hm).choose
          simp at hlt
          omega
        simp only [record_modules, List.getElem?_concat_length, Option.some.injEq] at hm
        subst hm
        have hh : Handled s d dep := by
          have hw := h.awaited [] o n js rfl dep hdep hf
          simpa [Awaited] using hw
        exact ⟨by simpa using hh.1, hh.servedAt (hn.origin_loading rfl)⟩
      · rw [hsame, List.getElem?_eq_none hi] at hm
        cases hm

theorem ordered_opening (s : Settings) (es : List String) (cache : FileCache)
    (log : List Message) : Ordered s (opening es cache log) := by
  refine ⟨fun id p he => ?_, fun js₁ o m js₂ he => ?_, fun i m hm => ?_⟩
  · simp [opening, start] at he
  · have hmem : Job.record o m ∈ es.map (Job.file · none) := by
      rw [show es.map (Job.file · none) = _ from he]
      simp
    simp at hmem
  · simp [opening, start] at hm

theorem ordered_of_steps {es : List String} {cache : FileCache} {log : List Message} {c : Stage}
    (hs : Steps view s (opening es cache log) c) : Nested view s c ∧ Ordered s c := by
  induction hs with
  | refl => exact ⟨nested_opening view s es cache log, ordered_opening s es cache log⟩
  | tail _ hstep ih => exact ⟨ih.1.step hstep, ih.2.step ih.1 hstep⟩

/-- Where the dependencies of a module stand when a discovery is over. -/
theorem servedAt_of_run {cache : FileCache} (h : run view s cache = .ok d) {i : Nat}
    {m : ModuleRecord} (hm : d.modules[i]? = some m) (hdep : dep ∈ m.deps)
    (hf : Follows s m.id dep) : s.pathOf dep ∈ d.visited ∧ ServedAt s d i dep := by
  obtain ⟨es, log, -, hs, -⟩ := steps_of_run h
  exact (ordered_of_steps hs).2.served i m hm dep hdep hf

/-- A module of a discovery depends on another, whose file its dependency leads to. -/
structure DependsOn (s : Settings) (d : Discovery) (m m' : ModuleRecord) : Prop where
  mem : m ∈ d.modules
  mem' : m' ∈ d.modules
  dep_mem : m'.id ∈ m.deps
  follows : Follows s m.id m'.id
  path : s.pathOf m'.id = m'.path

/-- Without a report of a cycle through it, what a module depends on stands in front of it. -/
theorem DependsOn.lt {cache : FileCache} (h : run view s cache = .ok d)
    (hu : (d.modules.map fun m => (m.id, m.path)).Nodup) {m m' : ModuleRecord}
    (hd : DependsOn s d m m') (hw : .circularDependency m'.path ∉ d.warnings) :
    d.modules.idxOf m' < d.modules.idxOf m := by
  have hi : d.modules[d.modules.idxOf m]? = some m := List.getElem?_idxOf hd.mem
  have hi' : d.modules[d.modules.idxOf m']? = some m' := List.getElem?_idxOf hd.mem'
  obtain ⟨-, ⟨-, hall⟩ | ⟨j, r, hj, hr, hid, hp⟩ | hcyc⟩ :=
    servedAt_of_run h hi hd.dep_mem hd.follows
  · exact hall _ m' hi' hd.path.symm
  · have heq : (d.modules.map fun m => (m.id, m.path))[j]? =
        (d.modules.map fun m => (m.id, m.path))[d.modules.idxOf m']? := by
      simp [List.getElem?_map, hr, hi', hid, hp, hd.path]
    have hlt := (List.getElem?_eq_some_iff.mp hr).choose
    have hji : j = d.modules.idxOf m' := (List.getElem?_inj (by simpa using hlt) hu).mp heq
    rwa [← hji]
  · exact absurd (hd.path ▸ hcyc) hw

/-- Along dependencies that come back to where they start, and are not reported, modules would stand
further and further in front. -/
theorem idxOf_lt_of_unreported {cache : FileCache} (h : run view s cache = .ok d)
    (hu : (d.modules.map fun m => (m.id, m.path)).Nodup) {m m' : ModuleRecord}
    (hw : ∀ r, TransGen (DependsOn s d) m r → TransGen (DependsOn s d) r m →
      .circularDependency r.path ∉ d.warnings)
    (hto : TransGen (DependsOn s d) m m') (hback : TransGen (DependsOn s d) m' m) :
    d.modules.idxOf m' < d.modules.idxOf m := by
  induction hto with
  | single hd => exact hd.lt h hu (hw _ (.single hd) hback)
  | @tail r m' hto hd ih =>
      have hr : d.modules.idxOf r < d.modules.idxOf m := ih (.head hd hback)
      have hlt := hd.lt h hu (hw _ (.tail hto hd) hback)
      exact Nat.lt_trans hlt hr

/-- Every dependency of a module that leads to a file is visited. Its file is recorded in front of
the module with all that it declares, or with what is asked for, or a cycle is reported. If ids are
declared once in a file, every cycle of dependencies between modules has a report at one of them. -/
theorem dependencies_in_order {cache : FileCache} (h : run view s cache = .ok d) :
    (∀ (i : Nat) (m : ModuleRecord), d.modules[i]? = some m →
      ∀ dep ∈ m.deps, Follows s m.id dep →
        s.pathOf dep ∈ d.visited ∧
          ((∀ (j : Nat) (r : ModuleRecord), d.modules[j]? = some r → r.path = s.pathOf dep →
              j < i) ∨
            (∃ (j : Nat) (r : ModuleRecord), j < i ∧ d.modules[j]? = some r ∧ r.id = dep ∧
              r.path = s.pathOf dep) ∨
            .circularDependency (s.pathOf dep) ∈ d.warnings)) ∧
      ((d.modules.map fun m => (m.id, m.path)).Nodup →
        ∀ m, TransGen (DependsOn s d) m m →
          ∃ r, TransGen (DependsOn s d) m r ∧ TransGen (DependsOn s d) r m ∧
            .circularDependency r.path ∈ d.warnings) := by
  refine ⟨fun i m hm dep hdep hf => ?_, fun hu m hc => ?_⟩
  · obtain ⟨hv, ⟨-, hall⟩ | hserved⟩ := servedAt_of_run h hm hdep hf
    · exact ⟨hv, .inl hall⟩
    · exact ⟨hv, .inr hserved⟩
  · by_contra hno
    have hw : ∀ r, TransGen (DependsOn s d) m r → TransGen (DependsOn s d) r m →
        .circularDependency r.path ∉ d.warnings :=
      fun r hto hback hr => hno ⟨r, hto, hback, hr⟩
    exact Nat.lt_irrefl _ (idxOf_lt_of_unreported h hu hw hc hc)

end

/-- Two modules ask for each other: the cycle is reported at one of them. -/
theorem dependencies_in_order_mutual : ∃ s d,
    run (Listing.view ∅) s .empty = .ok d ∧
      d.modules = [requiring "b" "a", requiring "a" "b"] ∧
      (.circularDependency "/a.js" ∈ d.warnings ∨ .circularDependency "/b.js" ∈ d.warnings) := by
  have hfound : (inlineRun (inlineOptions ["a.js"]
      [("a.js", (requiring "a" "b").source), ("b.js", (requiring "b" "a").source)])).map
        (fun (s, d) =>
          (d.modules, s.pathOf "a", s.pathOf "b", s.includes "a", s.includes "b")) =
      some ([requiring "b" "a", requiring "a" "b"], "/a.js", "/b.js", true, true) := by
    decide +kernel
  obtain ⟨⟨s, d⟩, hrun, he⟩ := Option.map_eq_some_iff.mp hfound
  simp only [Prod.mk.injEq] at he
  obtain ⟨hm, hpa, hpb, hia, hib⟩ := he
  have hd := (of_inlineRun hrun).2
  have hab : DependsOn s d (requiring "a" "b") (requiring "b" "a") :=
    ⟨by simp [hm], by simp [hm], by simp [requiring], ⟨by simp [requiring], hib⟩, hpb⟩
  have hba : DependsOn s d (requiring "b" "a") (requiring "a" "b") :=
    ⟨by simp [hm], by simp [hm], by simp [requiring], ⟨by simp [requiring], hia⟩, hpa⟩
  obtain ⟨r, hto, -, hr⟩ := (dependencies_in_order hd).2 (by rw [hm]; decide) _
    (TransGen.tail (.single hab) hba)
  refine ⟨s, d, hd, hm, ?_⟩
  have hmem : r ∈ d.modules := by
    cases hto with
    | single h => exact h.mem'
    | tail _ h => exact h.mem'
  rw [hm] at hmem
  simp only [List.mem_cons, List.not_mem_nil, or_false] at hmem
  rcases hmem with rfl | rfl
  · exact .inr hr
  · exact .inl hr

end DefineBundle.Discovery
