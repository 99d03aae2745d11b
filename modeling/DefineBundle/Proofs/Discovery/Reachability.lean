import DefineBundle.Proofs.Discovery.Lookup

/-!
# What is reached

The files of a build are a graph: a file leads to the files of the dependencies of its modules. A
discovery succeeds when every file that the entries reach is there, and then it has visited each of
them once and has recorded its modules in their order. At every stage, what is recorded of a visited
file and what is still to be recorded of it are its modules; and a file that a visited one leads to
is itself visited, or a job leads to it.
-/
namespace DefineBundle.Discovery

open DefineBundle.Script (Declaration)
open DefineBundle.Path (IsNormal)
open Relation (ReflTransGen)

/-- A file leads to another: one of its modules depends on a module whose file that is. -/
def Edge (view : FileView) (s : Settings) (p q : String) : Prop :=
  ∃ o ms, fileAt? view s p = some (o, ms) ∧
    ∃ m ∈ ms, ∃ dep ∈ m.deps, Follows s m.id dep ∧ s.pathOf dep = q

/-- A path that the entries lead to. -/
def Reachable (view : FileView) (s : Settings) (es : List String) (p : String) : Prop :=
  ∃ e ∈ es, ReflTransGen (Edge view s) e p

/-- The records of the modules of a file, in their order. -/
def recordsAt (view : FileView) (s : Settings) (p : String) : List ModuleRecord :=
  match fileAt? view s p with
  | some (o, ms) => ms.map (recordOf s o)
  | none => []

def modifiedAt (view : FileView) (s : Settings) (p : String) : Nat :=
  (fileAt? view s p).elim 0 fun f => f.1.modified

def Declares (view : FileView) (s : Settings) (es : List String) (o : Origin)
    (m : Declaration) : Prop :=
  Reachable view s es o.path ∧ ∃ ms, fileAt? view s o.path = some (o, ms) ∧ m ∈ ms

/-- A job that has its place in a discovery from the entries `es`. -/
def Job.Sound (view : FileView) (s : Settings) (es : List String) : Job → Prop
  | .file path _ => Reachable view s es path
  | .arity o m => Declares view s es o m
  | .dependency o m dep => Declares view s es o m ∧ dep ∈ m.deps
  | .record o m => Declares view s es o m
  | .leave _ => True

def Job.record? (s : Settings) : Job → Option ModuleRecord
  | .record o m => some (recordOf s o m)
  | _ => none

/-- Nothing but reachable files is worked on, and the cache shows the files as they are. -/
structure Sound (view : FileView) (s : Settings) (es : List String) (c : Stage) : Prop where
  mirrors : c.found.cache.Mirrors view
  reached : ∀ p ∈ c.found.visited, Reachable view s es p
  jobs : ∀ j ∈ c.agenda, j.Sound view s es

/-- A path that is visited, or that a job leads to. -/
def Covered (s : Settings) (c : Stage) (q : String) : Prop :=
  q ∈ c.found.visited ∨ (∃ referrer, .file q referrer ∈ c.agenda) ∨
    ∃ o m dep, .dependency o m dep ∈ c.agenda ∧ Follows s m.id dep ∧ s.pathOf dep = q

structure Closed (view : FileView) (s : Settings) (es : List String) (c : Stage) : Prop where
  entries : ∀ e ∈ es, Covered s c e
  edges : ∀ p ∈ c.found.visited, ∀ q, Edge view s p q → Covered s c q

/-- What is recorded and what is still to be recorded are the modules of the visited files, which
are all there; and the latest change is theirs. -/
structure Recorded (view : FileView) (s : Settings) (c : Stage) : Prop where
  there : ∀ p ∈ c.found.visited, (fileAt? view s p).isSome
  records : ∀ p, (c.found.modules ++ c.agenda.filterMap (Job.record? s)).filter (·.path = p) =
    if p ∈ c.found.visited then recordsAt view s p else []
  latest : c.found.latest = (c.found.visited.map (modifiedAt view s)).foldl max 0

section
variable {view : FileView} {s : Settings} {es : List String} {p q : String}

theorem Reachable.entry (h : p ∈ es) : Reachable view s es p :=
  ⟨p, h, .refl⟩

theorem Reachable.tail (h : Reachable view s es p) (he : Edge view s p q) :
    Reachable view s es q := by
  obtain ⟨e, hmem, hp⟩ := h
  exact ⟨e, hmem, hp.tail he⟩

theorem Reachable.isNormal (hes : ∀ e ∈ es, IsNormal e) (h : Reachable view s es p) :
    IsNormal p := by
  obtain ⟨e, hmem, hp⟩ := h
  cases hp with
  | refl => exact hes _ hmem
  | tail _ he =>
      obtain ⟨o, ms, -, m, -, dep, -, -, rfl⟩ := he
      exact isNormal_pathOf s dep

theorem Declares.edge {o : Origin} {m : Declaration} {dep : String}
    (h : Declares view s es o m) (hdep : dep ∈ m.deps) (hf : Follows s m.id dep) :
    Reachable view s es (s.pathOf dep) := by
  obtain ⟨hr, ms, hfile, hm⟩ := h
  exact hr.tail ⟨o, ms, hfile, m, hm, dep, hdep, hf, rfl⟩

/-- A job opens a file, or records a module, or leaves what is visited and recorded as it is. -/
theorem Does.effect {j : Job} {new : List Job} {d d' : Discovery} (h : Does view s j d new d') :
    (∃ path referrer t ms, j = .file path referrer ∧ path ∉ d.visited ∧
        fetch view s path referrer (d.enter path) = .ok (t, d') ∧
        declarationsOf (originOf s path t).source = .ok ms ∧
        new = jobsOfFile (originOf s path t) ms) ∨
      (∃ o m, j = .record o m ∧ new = [] ∧ d' = d.record (recordOf s o m)) ∨
      j.record? s = none ∧ (∀ k ∈ new, k.record? s = none) ∧ d'.visited = d.visited ∧
        d'.modules = d.modules ∧ d'.latest = d.latest ∧ d'.cache = d.cache := by
  cases h with
  | opened hnew hfetch hms => exact .inl ⟨_, _, _, _, rfl, hnew, hfetch, hms, rfl⟩
  | recorded => exact .inr (.inl ⟨_, _, rfl, rfl, rfl⟩)
  | known _ => exact .inr (.inr ⟨rfl, by simp, rfl, rfl, rfl, rfl⟩)
  | arity => exact .inr (.inr ⟨rfl, by simp, by simp, by simp, by simp, by simp⟩)
  | skipped _ => exact .inr (.inr ⟨rfl, by simp, rfl, rfl, rfl, rfl⟩)
  | declared _ _ _ => exact .inr (.inr ⟨rfl, by simp, rfl, rfl, rfl, rfl⟩)
  | circular _ _ _ => exact .inr (.inr ⟨rfl, by simp, rfl, rfl, rfl, rfl⟩)
  | followed _ _ => exact .inr (.inr ⟨rfl, by simp [Job.record?], rfl, rfl, rfl, rfl⟩)
  | left => exact .inr (.inr ⟨rfl, by simp, rfl, rfl, rfl, rfl⟩)

theorem sound_of_mem_jobsOf {o : Origin} {m : Declaration} {j : Job}
    (h : Declares view s es o m) (hj : j ∈ jobsOf o m) : j.Sound view s es := by
  simp only [jobsOf, List.mem_append, List.mem_cons, List.mem_map, List.not_mem_nil,
    or_false] at hj
  rcases hj with (rfl | ⟨dep, hdep, rfl⟩) | rfl
  · exact h
  · exact ⟨h, hdep⟩
  · exact h

/-- What opening a path makes of a sound stage: the file is there, whatever is cached. -/
theorem Sound.fileAt? {path : String} {referrer : Option String} {js : List Job}
    {d d' : Discovery} {t : SourceText} {ms : List Declaration} (hes : ∀ e ∈ es, IsNormal e)
    (h : Sound view s es ⟨.file path referrer :: js, d⟩)
    (hfetch : fetch view s path referrer (d.enter path) = .ok (t, d'))
    (hms : declarationsOf (originOf s path t).source = .ok ms) :
    fileAt? view s path = some (originOf s path t, ms) ∧ d'.cache.Mirrors view := by
  have hr : Reachable view s es path := h.jobs _ List.mem_cons_self
  obtain ⟨hat, hm⟩ := at?_of_fetch (d := d.enter path) h.mirrors (hr.isNormal hes) hfetch
  exact ⟨fileAt?_of_at? hat hms, hm⟩

theorem Sound.step {c c' : Stage} (hes : ∀ e ∈ es, IsNormal e) (h : Sound view s es c)
    (hs : Step view s c c') : Sound view s es c' := by
  obtain ⟨hj⟩ := hs
  rename_i j js new d d'
  have hjob : j.Sound view s es := h.jobs j List.mem_cons_self
  have hjs : ∀ k ∈ js, k.Sound view s es := fun k hk => h.jobs k (List.mem_cons_of_mem _ hk)
  have hsame : (∀ k ∈ new, k.Sound view s es) → d'.cache = d.cache → d'.visited = d.visited →
      Sound view s es ⟨new ++ js, d'⟩ := by
    intro hnew hc hv
    refine ⟨hc ▸ h.mirrors, hv ▸ h.reached, fun k hk => ?_⟩
    rcases List.mem_append.mp hk with hk | hk
    · exact hnew k hk
    · exact hjs k hk
  cases hj with
  | known _ => exact hsame (by simp) rfl rfl
  | arity => exact hsame (by simp) (by simp) (by simp)
  | skipped _ => exact hsame (by simp) rfl rfl
  | declared _ _ _ => exact hsame (by simp) rfl rfl
  | circular _ _ _ => exact hsame (by simp) rfl rfl
  | recorded => exact hsame (by simp) (by simp) (by simp)
  | left => exact hsame (by simp) rfl rfl
  | followed hf _ =>
      refine hsame (fun k hk => ?_) rfl rfl
      rw [List.mem_singleton.mp hk]
      exact hjob.1.edge hjob.2 hf
  | @opened path _ _ _ t ms hnew hfetch hms =>
      obtain ⟨hfile, hm⟩ := h.fileAt? hes hfetch hms
      have hr : Reachable view s es path := hjob
      obtain ⟨cache, -, rfl⟩ := fetch_eq_ok hfetch
      refine ⟨hm, fun q hq => ?_, fun k hk => ?_⟩
      · rcases List.mem_append.mp hq with hq | hq
        · exact h.reached q hq
        · exact List.mem_singleton.mp hq ▸ hr
      · rcases List.mem_append.mp hk with hk | hk
        · rcases List.mem_append.mp hk with hk | hk
          · obtain ⟨m, hmem, hk⟩ := List.mem_flatMap.mp hk
            exact sound_of_mem_jobsOf ⟨hr, ms, hfile, hmem⟩ hk
          · rw [List.mem_singleton.mp hk]
            trivial
        · exact hjs k hk

/-- A path that is covered stays so: its job is done by visiting it or leads to a further job. -/
theorem Covered.step {c c' : Stage} (hn : Nested view s c) (hs : Step view s c c')
    (h : Covered s c q) : Covered s c' q := by
  obtain ⟨hj⟩ := hs
  rename_i j js new d d'
  have hv : d.visited ⊆ d'.visited := (hn.grows hj).visited
  rcases h with h | ⟨referrer, h⟩ | ⟨o, m, dep, h, hf, rfl⟩
  · exact .inl (hv h)
  · rcases List.mem_cons.mp h with rfl | h
    · cases hj with
      | known hknown => exact .inl hknown
      | opened _ hfetch _ =>
          obtain ⟨cache, -, rfl⟩ := fetch_eq_ok hfetch
          exact .inl (List.mem_append_right _ (List.mem_singleton_self _))
    · exact .inr (.inl ⟨referrer, List.mem_append_right _ h⟩)
  · rcases List.mem_cons.mp h with rfl | h
    · cases hj with
      | skipped hno => exact absurd hf hno
      | declared _ hl _ => exact .inl (hn.loading_visited _ hl)
      | circular _ hl _ => exact .inl (hn.loading_visited _ hl)
      | followed _ _ => exact .inr (.inl ⟨_, List.mem_cons_self⟩)
    · exact .inr (.inr ⟨o, m, dep, List.mem_append_right _ h, hf, rfl⟩)

theorem dependency_mem_jobsOfFile {o : Origin} {ms : List Declaration} {m : Declaration}
    {dep : String} (hm : m ∈ ms) (hdep : dep ∈ m.deps) :
    .dependency o m dep ∈ jobsOfFile o ms :=
  List.mem_append_left _ (List.mem_flatMap.mpr ⟨m, hm, by simp [jobsOf, hdep]⟩)

theorem Closed.step {c c' : Stage} (hes : ∀ e ∈ es, IsNormal e) (hn : Nested view s c)
    (hsound : Sound view s es c) (h : Closed view s es c) (hs : Step view s c c') :
    Closed view s es c' := by
  refine ⟨fun e he => (h.entries e he).step hn hs, fun p hp q hpq => ?_⟩
  have hold : p ∈ c.found.visited → Covered s c' q := fun hv => (h.edges p hv q hpq).step hn hs
  obtain ⟨hj⟩ := hs
  rcases hj.effect with ⟨path, referrer, t, ms, rfl, hnew, hfetch, hms, rfl⟩ |
    ⟨o, m, rfl, rfl, rfl⟩ | ⟨-, -, hv, -⟩
  · obtain ⟨hfile, -⟩ := hsound.fileAt? hes hfetch hms
    obtain ⟨cache, -, rfl⟩ := fetch_eq_ok hfetch
    rcases List.mem_append.mp hp with hp | hp
    · exact hold hp
    · -- the dependencies of the file that was opened are on the agenda
      obtain ⟨o, ms', hfile', m, hm, dep, hdep, hf, rfl⟩ := hpq
      rw [List.mem_singleton.mp hp, hfile] at hfile'
      cases hfile'
      have hmem := dependency_mem_jobsOfFile (o := originOf s path t) hm hdep
      exact .inr (.inr ⟨_, m, dep, List.mem_append_left _ hmem, hf, rfl⟩)
  · exact hold (by simpa using hp)
  · exact hold (hv ▸ hp)

theorem record?_jobsOf (o : Origin) (m : Declaration) :
    (jobsOf o m).filterMap (Job.record? s) = [recordOf s o m] := by
  have hdeps : (m.deps.map (Job.dependency o m)).filterMap (Job.record? s) = [] := by
    simp [List.filterMap_map, Function.comp_def, Job.record?]
  rw [jobsOf, List.filterMap_append, List.filterMap_cons_none rfl, hdeps]
  rfl

theorem record?_jobsOfFile (o : Origin) (ms : List Declaration) :
    (jobsOfFile o ms).filterMap (Job.record? s) = ms.map (recordOf s o) := by
  have hms : (ms.flatMap (jobsOf o)).filterMap (Job.record? s) = ms.map (recordOf s o) := by
    induction ms with
    | nil => rfl
    | cons m ms ih =>
        rw [List.flatMap_cons, List.filterMap_append, record?_jobsOf, ih]
        rfl
  rw [jobsOfFile, List.filterMap_append, hms]
  simp [Job.record?]

theorem filter_map_recordOf (path : String) (t : SourceText) (ms : List Declaration) (p : String) :
    (ms.map (recordOf s (originOf s path t))).filter (·.path = p) =
      if p = path then ms.map (recordOf s (originOf s path t)) else [] := by
  split
  · rename_i he
    refine List.filter_eq_self.mpr fun r hr => ?_
    obtain ⟨m, -, rfl⟩ := List.mem_map.mp hr
    simp [recordOf, originOf, he]
  · rename_i he
    refine List.filter_eq_nil_iff.mpr fun r hr => ?_
    obtain ⟨m, -, rfl⟩ := List.mem_map.mp hr
    simp [recordOf, originOf, Ne.symm he]

theorem Recorded.step {c c' : Stage} (hes : ∀ e ∈ es, IsNormal e) (hsound : Sound view s es c)
    (h : Recorded view s c) (hs : Step view s c c') : Recorded view s c' := by
  obtain ⟨hj⟩ := hs
  rename_i j js new d d'
  rcases hj.effect with ⟨path, referrer, t, ms, rfl, hnew, hfetch, hms, rfl⟩ |
    ⟨o, m, rfl, rfl, rfl⟩ | ⟨hjob, hjobs, hv, hm, hl, -⟩
  · obtain ⟨hfile, -⟩ := hsound.fileAt? hes hfetch hms
    obtain ⟨cache, -, rfl⟩ := fetch_eq_ok hfetch
    refine ⟨fun p hp => ?_, fun p => ?_, ?_⟩
    · rcases List.mem_append.mp hp with hp | hp
      · exact h.there p hp
      · rw [List.mem_singleton.mp hp, hfile]
        rfl
    · have hp := h.records p
      rw [List.filterMap_cons_none rfl, List.filter_append] at hp
      rw [List.filterMap_append, record?_jobsOfFile, List.filter_append, List.filter_append,
        filter_map_recordOf]
      change _ = if p ∈ d.visited ++ [path] then _ else _
      by_cases he : p = path
      · subst he
        rw [if_neg hnew, List.append_eq_nil_iff] at hp
        simp [hp.1, hp.2, recordsAt, hfile, enter]
      · rw [if_neg he, List.nil_append]
        simpa [he, enter] using hp
    · change max d.latest t.modified = ((d.visited ++ [path]).map (modifiedAt view s)).foldl max 0
      have hmod : modifiedAt view s path = t.modified := by
        simp [modifiedAt, hfile, originOf]
      rw [List.map_append, List.foldl_append, ← h.latest]
      simp [hmod]
  · refine ⟨by simpa using h.there, fun p => ?_, by simpa using h.latest⟩
    have hfirst : (Job.record o m :: js).filterMap (Job.record? s) =
        recordOf s o m :: js.filterMap (Job.record? s) := List.filterMap_cons_some rfl
    have hp := h.records p
    dsimp only at hp
    rw [hfirst] at hp
    simpa using hp
  · refine ⟨hv ▸ h.there, fun p => ?_, by rw [hl, hv]; exact h.latest⟩
    have hp := h.records p
    rw [List.filterMap_cons_none hjob] at hp
    rw [List.filterMap_append, List.filterMap_eq_nil_iff.mpr hjobs, hm, hv]
    exact hp

theorem sound_opening (view : FileView) (s : Settings) (es : List String) (log : List Message) :
    Sound view s es (opening es .empty log) := by
  refine ⟨FileCache.mirrors_empty view, by simp [opening, start], fun j hj => ?_⟩
  obtain ⟨e, he, rfl⟩ := List.mem_map.mp hj
  exact Reachable.entry he

theorem closed_opening (view : FileView) (s : Settings) (es : List String) (log : List Message) :
    Closed view s es (opening es .empty log) := by
  refine ⟨fun e he => .inr (.inl ⟨none, ?_⟩), by simp [opening, start]⟩
  exact List.mem_map.mpr ⟨e, he, rfl⟩

theorem recorded_opening (view : FileView) (s : Settings) (es : List String)
    (log : List Message) : Recorded view s (opening es .empty log) := by
  refine ⟨by simp [opening, start], fun p => ?_, rfl⟩
  simp [opening, start, List.filterMap_map, Function.comp_def, Job.record?]

/-- Everything that holds at every stage of a discovery. -/
structure Explores (view : FileView) (s : Settings) (es : List String) (c : Stage) : Prop where
  nested : Nested view s c
  sound : Sound view s es c
  closed : Closed view s es c
  recorded : Recorded view s c

theorem explores_of_steps (hes : ∀ e ∈ es, IsNormal e) {log : List Message} {c : Stage}
    (hs : Steps view s (opening es .empty log) c) : Explores view s es c := by
  induction hs with
  | refl =>
      exact ⟨nested_opening view s es .empty log, sound_opening view s es log,
        closed_opening view s es log, recorded_opening view s es log⟩
  | tail _ hstep ih =>
      exact ⟨ih.nested.step hstep, ih.sound.step hes hstep,
        ih.closed.step hes ih.nested ih.sound hstep, ih.recorded.step hes ih.sound hstep⟩

/-- Once nothing is left to do, the visited paths are the reachable ones. -/
theorem Explores.mem_visited_iff {d : Discovery} (h : Explores view s es ⟨[], d⟩) (p : String) :
    p ∈ d.visited ↔ Reachable view s es p := by
  have hdone : ∀ q, Covered s ⟨[], d⟩ q → q ∈ d.visited := by
    rintro q (hq | ⟨_, hq⟩ | ⟨_, _, _, hq, -⟩)
    · exact hq
    · cases hq
    · cases hq
  refine ⟨h.sound.reached p, ?_⟩
  rintro ⟨e, he, hp⟩
  induction hp with
  | refl => exact hdone e (h.closed.entries e he)
  | tail _ hedge ih => exact hdone _ (h.closed.edges _ ih _ hedge)

/-- A discovery stops only at a reachable path without a file, or whose modules are not known. -/
theorem Explores.fileAt?_of_halts {c : Stage} {e : Halted Discovery}
    (hes : ∀ e ∈ es, IsNormal e) (h : Explores view s es c) (hh : Halts view s c e) :
    ∃ p, Reachable view s es p ∧ fileAt? view s p = none := by
  cases hh with
  | @unreadable path _ _ d _ _ hfetch =>
      have hr : Reachable view s es path := h.sound.jobs _ List.mem_cons_self
      exact ⟨path, hr, fileAt?_of_fetch_error (d := d.enter path) h.sound.mirrors
        (hr.isNormal hes) hfetch⟩
  | @malformed path _ _ d _ _ _ _ hfetch hms =>
      have hr : Reachable view s es path := h.sound.jobs _ List.mem_cons_self
      obtain ⟨hat, -⟩ := at?_of_fetch (d := d.enter path) h.sound.mirrors (hr.isNormal hes) hfetch
      refine ⟨path, hr, ?_⟩
      unfold fileAt?
      simp only [hat, hms]

/-- The text of a path can be loaded, and the modules that it declares are known. -/
def Holds (view : FileView) (s : Settings) (p : String) (t : SourceText)
    (ms : List Declaration) : Prop :=
  SourceText.at? view s.inlineSources p = .ok (some t) ∧
    declarationsOf (s.tokens.substitute t.text) = .ok ms

theorem fileAt?_eq_some_iff {o : Origin} {ms : List Declaration} :
    fileAt? view s p = some (o, ms) ↔ ∃ t, o = originOf s p t ∧ Holds view s p t ms := by
  unfold fileAt? Holds
  cases hat : SourceText.at? view s.inlineSources p with
  | error f => simp
  | ok found =>
      cases found with
      | none => simp
      | some t =>
          dsimp only
          cases hms : declarationsOf (originOf s p t).source with
          | error e =>
              have hms' : declarationsOf (s.tokens.substitute t.text) = .error e := hms
              simp [hms']
          | ok found =>
              have hms' : declarationsOf (s.tokens.substitute t.text) = .ok found := hms
              simp [hms', eq_comm]

theorem Holds.fileAt? {t : SourceText} {ms : List Declaration} (h : Holds view s p t ms) :
    fileAt? view s p = some (originOf s p t, ms) :=
  fileAt?_eq_some_iff.mpr ⟨t, rfl, h⟩

theorem Holds.unique {t t' : SourceText} {ms ms' : List Declaration} (h : Holds view s p t ms)
    (h' : Holds view s p t' ms') : t = t' ∧ ms = ms' := by
  obtain rfl : t = t' := Option.some.inj (Except.ok.inj (h.1.symm.trans h'.1))
  exact ⟨rfl, Except.ok.inj (h.2.symm.trans h'.2)⟩

/-- What the entries reach, and nothing else: each path once, with its modules in their order, and
the latest change among the files. -/
structure IsExact (view : FileView) (s : Settings) (es : List String) (d : Discovery) : Prop where
  nodup : d.visited.Nodup
  mem_visited : ∀ p, p ∈ d.visited ↔ Reachable view s es p
  path_mem : ∀ m ∈ d.modules, m.path ∈ d.visited
  modules : ∀ p ∈ d.visited, ∃ t ms, Holds view s p t ms ∧ t.modified ≤ d.latest ∧
    d.modules.filter (·.path = p) = ms.map fun m =>
      ⟨m.id, p, s.tokens.substitute t.text, m.deps,
        s.publishes m.id (s.tokens.substitute t.text), t.isVirtual, t.modified⟩
  latest : ∃ p ∈ d.visited, ∃ t ms, Holds view s p t ms ∧ t.modified = d.latest

theorem foldl_max_spec (xs : List Nat) (n : Nat) :
    n ≤ xs.foldl max n ∧ (∀ x ∈ xs, x ≤ xs.foldl max n) ∧
      (xs.foldl max n = n ∨ xs.foldl max n ∈ xs) := by
  induction xs generalizing n with
  | nil => simp
  | cons x xs ih =>
      obtain ⟨hle, hall, hmem⟩ := ih (max n x)
      rw [List.foldl_cons]
      refine ⟨by omega, fun y hy => ?_, ?_⟩
      · rcases List.mem_cons.mp hy with rfl | hy
        · omega
        · exact hall y hy
      · rcases hmem with hmem | hmem
        · rcases Nat.le_total n x with hnx | hnx
          · exact .inr (List.mem_cons.mpr (.inl (by omega)))
          · exact .inl (by omega)
        · exact .inr (List.mem_cons_of_mem _ hmem)

theorem Explores.filter_modules {d : Discovery} (h : Explores view s es ⟨[], d⟩) (p : String) :
    d.modules.filter (·.path = p) = if p ∈ d.visited then recordsAt view s p else [] := by
  simpa using h.recorded.records p

/-- A discovery that has done every job and has a module is exact. -/
theorem Explores.isExact {d : Discovery} (h : Explores view s es ⟨[], d⟩)
    (hm : d.modules ≠ []) : IsExact view s es d := by
  have hlatest : d.latest = (d.visited.map (modifiedAt view s)).foldl max 0 := h.recorded.latest
  obtain ⟨-, hle, hmax⟩ := foldl_max_spec (d.visited.map (modifiedAt view s)) 0
  rw [← hlatest] at hle hmax
  have hpath : ∀ m ∈ d.modules, m.path ∈ d.visited := by
    intro m hmem
    by_contra hno
    have hf := h.filter_modules m.path
    rw [if_neg hno] at hf
    exact List.filter_eq_nil_iff.mp hf m hmem (by simp)
  have hholds : ∀ p ∈ d.visited, ∃ t ms, Holds view s p t ms ∧ modifiedAt view s p = t.modified ∧
      recordsAt view s p = ms.map (recordOf s (originOf s p t)) := by
    intro p hp
    obtain ⟨⟨o, ms⟩, hfile⟩ := Option.isSome_iff_exists.mp (h.recorded.there p hp)
    obtain ⟨t, rfl, hh⟩ := fileAt?_eq_some_iff.mp hfile
    exact ⟨t, ms, hh, by simp [modifiedAt, hfile, originOf], by simp [recordsAt, hfile]⟩
  have hattained : ∃ p ∈ d.visited, modifiedAt view s p = d.latest := by
    rcases hmax with hzero | hmem
    · obtain ⟨m, hmem⟩ := List.exists_mem_of_ne_nil _ hm
      have hmod := hle _ (List.mem_map_of_mem (hpath m hmem))
      exact ⟨m.path, hpath m hmem, by omega⟩
    · obtain ⟨p, hp, he⟩ := List.mem_map.mp hmem
      exact ⟨p, hp, he⟩
  refine ⟨h.nested.visited_nodup, h.mem_visited_iff, hpath, fun p hp => ?_, ?_⟩
  · obtain ⟨t, ms, hh, hmod, hrec⟩ := hholds p hp
    refine ⟨t, ms, hh, hmod ▸ hle _ (List.mem_map_of_mem hp), ?_⟩
    rw [h.filter_modules p, if_pos hp, hrec]
    rfl
  · obtain ⟨p, hp, he⟩ := hattained
    obtain ⟨t, ms, hh, hmod, -⟩ := hholds p hp
    exact ⟨p, hp, t, ms, hh, hmod ▸ he⟩

theorem isExact_of_run (hes : ∀ e ∈ es, IsNormal e) (he : entries view s = .ok es)
    {d : Discovery} (h : run view s .empty = .ok d) : IsExact view s es d := by
  obtain ⟨es', log, he', hs, hm⟩ := steps_of_run h
  obtain rfl : es = es' := Except.ok.inj (he.symm.trans he')
  exact (explores_of_steps hes hs).isExact hm

/-- A discovery succeeds if every reachable path has a file with known modules, and there is a
module; otherwise it does not. -/
theorem run_ok_iff (hes : ∀ e ∈ es, IsNormal e) (he : entries view s = .ok es) :
    (∃ d, run view s .empty = .ok d) ↔
      (∀ p, Reachable view s es p → ∃ t ms, Holds view s p t ms) ∧
        ∃ p t m ms, Reachable view s es p ∧ Holds view s p t (m :: ms) := by
  constructor
  · rintro ⟨d, hd⟩
    have hx := isExact_of_run hes he hd
    refine ⟨fun p hp => ?_, ?_⟩
    · obtain ⟨t, ms, hh, -⟩ := hx.modules p ((hx.mem_visited p).mpr hp)
      exact ⟨t, ms, hh⟩
    · obtain ⟨-, -, -, -, hm⟩ := steps_of_run hd
      obtain ⟨r, hr⟩ := List.exists_mem_of_ne_nil _ hm
      have hv := hx.path_mem r hr
      obtain ⟨t, ms, hh, -, hrec⟩ := hx.modules r.path hv
      cases ms with
      | nil => exact absurd rfl (List.filter_eq_nil_iff.mp hrec r hr ∘ decide_eq_true)
      | cons m ms => exact ⟨r.path, t, m, ms, (hx.mem_visited _).mp hv, hh⟩
  · rintro ⟨hall, p, t, m, ms, hp, hh⟩
    rcases run_cases view s .empty with ⟨f, -, he', -⟩ | ⟨es', log, he', hr⟩
    · rw [he] at he'
      cases he'
    · obtain rfl : es = es' := Except.ok.inj (he.symm.trans he')
      rcases hr with ⟨d, hs, hrun⟩ | ⟨c, e, hs, hhalt, -⟩
      · have hx := explores_of_steps hes hs
        refine ⟨d, ?_⟩
        rw [hrun, if_neg]
        intro hempty
        have hf := hx.filter_modules p
        rw [if_pos ((hx.mem_visited_iff p).mpr hp), recordsAt, hh.fileAt?,
          List.isEmpty_iff.mp hempty] at hf
        simp at hf
      · obtain ⟨q, hq, hnone⟩ := (explores_of_steps hes hs).fileAt?_of_halts hes hhalt
        obtain ⟨t', ms', hh'⟩ := hall q hq
        rw [hh'.fileAt?] at hnone
        cases hnone

end

section
variable {view : FileView} {s : Settings} {d : Discovery} {o : Options} {current : String}
  (hs : o.settings current = .ok s) (hrun : run view s .empty = .ok d)
include hs hrun

theorem exists_isExact : ∃ es, IsExact view s es d := by
  obtain ⟨es, -, he, -⟩ := steps_of_run hrun
  exact ⟨es, isExact_of_run (fun _ => isNormal_of_mem_entries hs he) he hrun⟩

theorem isNormal_of_mem_visited {p : String} (hp : p ∈ d.visited) : IsNormal p := by
  obtain ⟨es, -, he, -⟩ := steps_of_run hrun
  have hes : ∀ e ∈ es, IsNormal e := fun _ => isNormal_of_mem_entries hs he
  exact (((isExact_of_run hes he hrun).mem_visited p).mp hp).isNormal hes

end

end DefineBundle.Discovery
