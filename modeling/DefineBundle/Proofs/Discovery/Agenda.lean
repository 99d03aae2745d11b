import DefineBundle.Discovery.Entries
import DefineBundle.Files.Listing
import Mathlib.Data.List.Nodup
import Mathlib.Logic.Relation

/-!
# Discovery as an agenda

A discovery put as a list of jobs that is worked off from the front. A file that is opened puts the
jobs of its declarations in front of all others, and after them its own leaving; so the files being
loaded are those whose leaving is still on the agenda. Everything that doing a job can come to is
listed in `Does`, and what stops a discovery in `Halts`.

The nested walk of `Discovery.run` goes through exactly these steps. Its bound on the nesting is
never met: the files inside each other are distinct and all of them are on disk or among the inline
sources. -/
namespace DefineBundle.Discovery

open DefineBundle.Script (Declaration)
open Relation (ReflTransGen)

/-- What there is to do. -/
inductive Job
  | file (path : String) (referrer : Option String)
  | arity (o : Origin) (m : Declaration)
  | dependency (o : Origin) (m : Declaration) (dep : String)
  | record (o : Origin) (m : Declaration)
  | leave (path : String)

/-- The jobs of a declaration, its record last. -/
def jobsOf (o : Origin) (m : Declaration) : List Job :=
  .arity o m :: m.deps.map (.dependency o m) ++ [.record o m]

def jobsOfFile (o : Origin) (ms : List Declaration) : List Job :=
  ms.flatMap (jobsOf o) ++ [.leave o.path]

def Job.leaves? : Job → Option String
  | leave path => some path
  | _ => none

/-- The file whose declaration a job belongs to. -/
def Job.origin? : Job → Option Origin
  | arity o _ => some o
  | dependency o _ _ => some o
  | record o _ => some o
  | _ => none

/-- What is found and what is left to do. -/
structure Stage where
  agenda : List Job
  found : Discovery

/-- A dependency of the module `id` that leads to a file: it is not the module itself and belongs
into the bundle. -/
def Follows (s : Settings) (id dep : String) : Prop :=
  dep ≠ id ∧ s.includes dep = true

/-- What doing a job can come to: the jobs that it puts in front of the others, and the state after
it. -/
inductive Does (view : FileView) (s : Settings) : Job → Discovery → List Job → Discovery → Prop
  | known {path : String} {referrer : Option String} {d : Discovery} : path ∈ d.visited →
      Does view s (.file path referrer) d [] d
  | opened {path : String} {referrer : Option String} {d d' : Discovery} {t : SourceText}
      {ms : List Declaration} : path ∉ d.visited →
      fetch view s path referrer (d.enter path) = .ok (t, d') →
      declarationsOf (originOf s path t).source = .ok ms →
      Does view s (.file path referrer) d (jobsOfFile (originOf s path t) ms) d'
  | arity {o : Origin} {m : Declaration} {d : Discovery} :
      Does view s (.arity o m) d [] (checkArity o m d)
  | skipped {o : Origin} {m : Declaration} {dep : String} {d : Discovery} :
      ¬ Follows s m.id dep → Does view s (.dependency o m dep) d [] d
  | declared {o : Origin} {m : Declaration} {dep : String} {d : Discovery} :
      Follows s m.id dep → s.pathOf dep ∈ d.loading →
      d.declaredIn.get? dep = some (s.pathOf dep) →
      Does view s (.dependency o m dep) d [] d
  | circular {o : Origin} {m : Declaration} {dep : String} {d : Discovery} :
      Follows s m.id dep → s.pathOf dep ∈ d.loading →
      d.declaredIn.get? dep ≠ some (s.pathOf dep) →
      Does view s (.dependency o m dep) d [] (d.warn (.circularDependency (s.pathOf dep)))
  | followed {o : Origin} {m : Declaration} {dep : String} {d : Discovery} :
      Follows s m.id dep → s.pathOf dep ∉ d.loading →
      Does view s (.dependency o m dep) d [.file (s.pathOf dep) (some o.path)] d
  | recorded {o : Origin} {m : Declaration} {d : Discovery} :
      Does view s (.record o m) d [] (d.record (recordOf s o m))
  | left {path : String} {d : Discovery} : Does view s (.leave path) d [] (d.leave path)

inductive Step (view : FileView) (s : Settings) : Stage → Stage → Prop
  | job {j : Job} {js new : List Job} {d d' : Discovery} : Does view s j d new d' →
      Step view s ⟨j :: js, d⟩ ⟨new ++ js, d'⟩

/-- A file that cannot be opened stops the discovery. -/
inductive Halts (view : FileView) (s : Settings) : Stage → Halted Discovery → Prop
  | unreadable {path : String} {referrer : Option String} {js : List Job} {d : Discovery}
      {h : Halted Discovery} : path ∉ d.visited →
      fetch view s path referrer (d.enter path) = .error h →
      Halts view s ⟨.file path referrer :: js, d⟩ h
  | malformed {path : String} {referrer : Option String} {js : List Job} {d d' : Discovery}
      {t : SourceText} {reason : DeclarationFault} : path ∉ d.visited →
      fetch view s path referrer (d.enter path) = .ok (t, d') →
      declarationsOf (originOf s path t).source = .error reason →
      Halts view s ⟨.file path referrer :: js, d⟩ ⟨.of (.badDeclaration path reason), d'⟩

abbrev Steps (view : FileView) (s : Settings) : Stage → Stage → Prop :=
  ReflTransGen (Step view s)

/-- The steps from a stage come to a result: all jobs but the last ones `js` are done, or one of
them stops the discovery. -/
def Leads (view : FileView) (s : Settings) (c : Stage) (js : List Job) :
    Except (Halted Discovery) Discovery → Prop
  | .ok d => Steps view s c ⟨js, d⟩
  | .error h => ∃ c', Steps view s c c' ∧ Halts view s c' h

section
variable {view : FileView} {s : Settings}

theorem Step.done {j : Job} {js : List Job} {d d' : Discovery} (h : Does view s j d [] d') :
    Step view s ⟨j :: js, d⟩ ⟨js, d'⟩ :=
  .job h

theorem Leads.head {c c' : Stage} {js : List Job} {r : Except (Halted Discovery) Discovery}
    (hs : Step view s c c') (h : Leads view s c' js r) : Leads view s c js r := by
  cases r with
  | ok d => exact ReflTransGen.head hs h
  | error e =>
      obtain ⟨c'', hc, he⟩ := h
      exact ⟨c'', ReflTransGen.head hs hc, he⟩

theorem Leads.bind {c : Stage} {js js' : List Job} {r : Except (Halted Discovery) Discovery}
    {f : Discovery → Except (Halted Discovery) Discovery} (h : Leads view s c js r)
    (hf : ∀ d, Steps view s c ⟨js, d⟩ → Leads view s ⟨js, d⟩ js' (f d)) :
    Leads view s c js' (r >>= f) := by
  cases r with
  | error e => exact h
  | ok d =>
      have hd := hf d h
      change Leads view s c js' (f d)
      cases hfd : f d with
      | ok d' =>
          rw [hfd] at hd
          exact ReflTransGen.trans h hd
      | error e =>
          rw [hfd] at hd
          obtain ⟨c', hc, he⟩ := hd
          exact ⟨c', ReflTransGen.trans h hc, he⟩

theorem fetch_eq_ok {path : String} {referrer : Option String} {d d' : Discovery}
    {t : SourceText} (h : fetch view s path referrer d = .ok (t, d')) :
    ∃ cache, SourceText.find view s.inlineSources path d.cache = (.ok (some t), cache) ∧
      d' = { d with
        cache, latest := max d.latest t.modified
        log := d.log ++ [⟨.debug, "Parsing module file: " ++ path⟩] } := by
  unfold fetch at h
  split at h
  · simp [halt] at h
  · simp [halt] at h
  · rename_i t' cache hfind
    simp only [say, Except.ok.injEq, Prod.mk.injEq] at h
    obtain ⟨rfl, rfl⟩ := h
    exact ⟨cache, hfind, rfl⟩

theorem isFile_or_contains_of_find {sources : Assoc String} {path : String} {c c' : FileCache}
    {t : SourceText} (h : SourceText.find view sources path c = (.ok (some t), c')) :
    view.isFile path = true ∨ sources.contains path = true := by
  unfold SourceText.find at h
  split at h
  · exact .inl ‹_›
  · simp only [Prod.mk.injEq, Except.ok.injEq, Option.map_eq_some_iff] at h
    obtain ⟨⟨text, htext, -⟩, -⟩ := h
    exact .inr (by simp [Assoc.contains, htext])

/-- The files being loaded are those still to be left, each once; and a file is left after all jobs
of its declarations. -/
structure Nested (view : FileView) (s : Settings) (c : Stage) : Prop where
  loading : c.found.loading = c.agenda.filterMap Job.leaves?
  visited_nodup : c.found.visited.Nodup
  loading_nodup : c.found.loading.Nodup
  loading_visited : ∀ p ∈ c.found.loading, p ∈ c.found.visited
  loading_present : ∀ p ∈ c.found.loading,
    view.isFile p = true ∨ s.inlineSources.contains p = true
  owned : ∀ js₁ j js₂ o, c.agenda = js₁ ++ j :: js₂ → j.origin? = some o → .leave o.path ∈ js₂

theorem append_eq_append_cons {α : Type} {as bs cs ds : List α} {x : α}
    (h : as ++ bs = cs ++ x :: ds) :
    (∃ k, as = cs ++ x :: k ∧ ds = k ++ bs) ∨ ∃ k, cs = as ++ k ∧ bs = k ++ x :: ds := by
  rcases List.append_eq_append_iff.mp h with ⟨k, hc, hb⟩ | ⟨k, ha, hd⟩
  · exact .inr ⟨k, hc, hb⟩
  · cases k with
    | nil => exact .inr ⟨[], by simpa using ha.symm, by simpa using hd.symm⟩
    | cons y k =>
        obtain ⟨rfl, rfl⟩ := List.cons.inj hd
        exact .inl ⟨k, ha, rfl⟩

theorem origin_of_mem_jobsOf {o : Origin} {m : Declaration} {j : Job} (h : j ∈ jobsOf o m) :
    j.origin? = some o := by
  simp only [jobsOf, List.mem_append, List.mem_cons, List.mem_map, List.not_mem_nil,
    or_false] at h
  rcases h with (rfl | ⟨dep, -, rfl⟩) | rfl <;> rfl

theorem leaves?_eq_none {j : Job} {o : Origin} (h : j.origin? = some o) : j.leaves? = none := by
  cases j <;> first | rfl | cases h

theorem leaves_jobsOf (o : Origin) (m : Declaration) :
    (jobsOf o m).filterMap Job.leaves? = [] :=
  List.filterMap_eq_nil_iff.mpr fun _ hj => leaves?_eq_none (origin_of_mem_jobsOf hj)

theorem leaves_jobsOfFile (o : Origin) (ms : List Declaration) :
    (jobsOfFile o ms).filterMap Job.leaves? = [o.path] := by
  have hms : (ms.flatMap (jobsOf o)).filterMap Job.leaves? = [] := by
    induction ms with
    | nil => rfl
    | cons m ms ih => rw [List.flatMap_cons, List.filterMap_append, leaves_jobsOf, ih]; rfl
  rw [jobsOfFile, List.filterMap_append, hms]
  rfl

/-- The jobs of a file stand before its leaving. -/
theorem leave_mem_of_jobsOfFile {o o' : Origin} {ms : List Declaration} {js₁ js₂ : List Job}
    {j : Job} (h : jobsOfFile o ms = js₁ ++ j :: js₂) (hj : j.origin? = some o') :
    o' = o ∧ .leave o.path ∈ js₂ := by
  rcases append_eq_append_cons h with ⟨k, hms, rfl⟩ | ⟨k, -, hk⟩
  · have hmem : j ∈ ms.flatMap (jobsOf o) := by simp [hms]
    obtain ⟨m, -, hm⟩ := List.mem_flatMap.mp hmem
    have ho := (origin_of_mem_jobsOf hm).symm.trans hj
    exact ⟨(Option.some.inj ho).symm, by simp⟩
  · have hl : j ∈ [Job.leave o.path] := by rw [hk]; simp
    rw [List.mem_singleton.mp hl] at hj
    cases hj

theorem Nested.leave {path : String} {js : List Job} {d : Discovery}
    (h : Nested view s ⟨.leave path :: js, d⟩) : Nested view s ⟨js, d.leave path⟩ := by
  have he : d.loading = path :: js.filterMap Job.leaves? := h.loading
  have hleave : (d.leave path).loading = js.filterMap Job.leaves? := by
    simp [Discovery.leave, he]
  have hmem : ∀ p ∈ (d.leave path).loading, p ∈ d.loading := by
    intro p hp
    rw [he]
    exact List.mem_cons_of_mem _ (hleave ▸ hp)
  refine ⟨hleave, h.visited_nodup, ?_, fun p hp => h.loading_visited p (hmem p hp),
    fun p hp => h.loading_present p (hmem p hp), fun js₁ j js₂ o hj ho => ?_⟩
  · rw [hleave]
    exact (List.nodup_cons.mp (he ▸ h.loading_nodup)).2
  · exact h.owned (.leave path :: js₁) j js₂ o (congrArg _ hj) ho

theorem Nested.opened {path : String} {referrer : Option String} {js : List Job}
    {d d' : Discovery} {t : SourceText} {ms : List Declaration}
    (h : Nested view s ⟨.file path referrer :: js, d⟩) (hnew : path ∉ d.visited)
    (hfetch : fetch view s path referrer (d.enter path) = .ok (t, d')) :
    Nested view s ⟨jobsOfFile (originOf s path t) ms ++ js, d'⟩ := by
  obtain ⟨cache, hfind, rfl⟩ := fetch_eq_ok hfetch
  refine ⟨?_, ?_, ?_, ?_, ?_, ?_⟩
  · change path :: d.loading = _
    rw [List.filterMap_append, leaves_jobsOfFile]
    exact congrArg (path :: ·) h.loading
  · exact List.nodup_append.mpr ⟨h.visited_nodup, by simp, fun a ha b hb => by
      rintro rfl
      exact hnew (List.mem_singleton.mp hb ▸ ha)⟩
  · exact List.nodup_cons.mpr ⟨fun hp => hnew (h.loading_visited path hp), h.loading_nodup⟩
  · intro p hp
    rcases List.mem_cons.mp hp with rfl | hp
    · exact List.mem_append_right _ (List.mem_singleton_self _)
    · exact List.mem_append_left _ (h.loading_visited p hp)
  · intro p hp
    rcases List.mem_cons.mp hp with rfl | hp
    · exact isFile_or_contains_of_find hfind
    · exact h.loading_present p hp
  · intro js₁ j js₂ o he ho
    rcases append_eq_append_cons he with ⟨k, hk, rfl⟩ | ⟨k, -, hk⟩
    · obtain ⟨rfl, hl⟩ := leave_mem_of_jobsOfFile hk ho
      exact List.mem_append_left _ hl
    · exact h.owned (.file path referrer :: k) j js₂ o (congrArg _ hk) ho

/-- Only opening and leaving a file bear on the files inside each other. -/
theorem Nested.of_eq {j : Job} {js : List Job} {d d' : Discovery}
    (h : Nested view s ⟨j :: js, d⟩) (new : List Job) (hj : j.leaves? = none)
    (hnew : ∀ k ∈ new, k.leaves? = none ∧ k.origin? = none)
    (hl : d'.loading = d.loading) (hv : d'.visited = d.visited) :
    Nested view s ⟨new ++ js, d'⟩ := by
  refine ⟨?_, ?_, ?_, ?_, ?_, ?_⟩
  · have hnone : new.filterMap Job.leaves? = [] :=
      List.filterMap_eq_nil_iff.mpr fun k hk => (hnew k hk).1
    have hload : d.loading = (j :: js).filterMap Job.leaves? := h.loading
    rw [List.filterMap_cons_none hj] at hload
    rw [List.filterMap_append, hnone, hl, hload]
    rfl
  · exact hv ▸ h.visited_nodup
  · exact hl ▸ h.loading_nodup
  · rw [hl, hv]
    exact h.loading_visited
  · rw [hl]
    exact h.loading_present
  · intro js₁ i js₂ o he ho
    rcases append_eq_append_cons he with ⟨k, hk, -⟩ | ⟨k, -, hk⟩
    · have hi := (hnew i (by simp [hk])).2
      rw [ho] at hi
      cases hi
    · exact h.owned (j :: k) i js₂ o (by rw [hk]; rfl) ho

theorem Nested.step {c c' : Stage} (h : Nested view s c) (hs : Step view s c c') :
    Nested view s c' := by
  obtain ⟨hj⟩ := hs
  cases hj with
  | known _ => exact h.of_eq [] rfl (by simp) rfl rfl
  | arity => exact h.of_eq [] rfl (by simp) (checkArity_loading ..) (checkArity_visited ..)
  | skipped _ => exact h.of_eq [] rfl (by simp) rfl rfl
  | declared _ _ _ => exact h.of_eq [] rfl (by simp) rfl rfl
  | circular _ _ _ => exact h.of_eq [] rfl (by simp) rfl rfl
  | followed _ _ => exact h.of_eq _ rfl (by simp [Job.leaves?, Job.origin?]) rfl rfl
  | recorded => exact h.of_eq [] rfl (by simp) (record_loading ..) (record_visited ..)
  | left => exact h.leave
  | opened hnew hfetch _ => exact h.opened hnew hfetch

theorem Nested.steps {c c' : Stage} (h : Nested view s c) (hs : Steps view s c c') :
    Nested view s c' := by
  induction hs with
  | refl => exact h
  | tail _ hstep ih => exact ih.step hstep

theorem Nested.length_loading_lt {c : Stage} (h : Nested view s c) :
    c.found.loading.length < depth view s := by
  have hfiles := view.length_le_capacity (c.found.loading.filter fun p => view.isFile p)
    (h.loading_nodup.filter _) (fun p hp => (List.mem_filter.mp hp).2)
  have hkeys : c.found.loading.filter (fun p => !view.isFile p) ⊆
      s.inlineSources.entries.map Prod.fst := by
    intro p hp
    obtain ⟨hp, hno⟩ := List.mem_filter.mp hp
    have hin := (h.loading_present p hp).resolve_left (by simpa using hno)
    simp only [Assoc.contains, Assoc.get?, Option.isSome_map, List.find?_isSome] at hin
    obtain ⟨e, he, heq⟩ := hin
    exact List.mem_map.mpr ⟨e, he, by simpa using heq⟩
  have hinline := (h.loading_nodup.filter fun p => !view.isFile p).length_le_of_subset hkeys
  have hsplit := List.length_eq_length_filter_add (l := c.found.loading) (fun p => view.isFile p)
  rw [List.length_map] at hinline
  unfold depth
  omega

/-- The file of a declaration that is worked on is being loaded. -/
theorem Nested.origin_loading {j : Job} {js : List Job} {d : Discovery} {o : Origin}
    (h : Nested view s ⟨j :: js, d⟩) (hj : j.origin? = some o) : o.path ∈ d.loading := by
  have hload : d.loading = (j :: js).filterMap Job.leaves? := h.loading
  rw [hload]
  exact List.mem_filterMap.mpr ⟨_, List.mem_cons_of_mem _ (h.owned [] j js o rfl hj), rfl⟩

/-- What is found only grows, and a file that is done stays done: only files that are being loaded
get modules. -/
structure Grows (d d' : Discovery) : Prop where
  visited : d.visited ⊆ d'.visited
  modules : ∃ new, d'.modules = d.modules ++ new ∧ ∀ r ∈ new, r.path ∈ d.loading
  warnings : d.warnings ⊆ d'.warnings
  loading : ∀ p ∈ d.visited, p ∉ d.loading → p ∉ d'.loading

theorem Grows.of_eq {d d' : Discovery} (hv : d'.visited = d.visited)
    (hm : d'.modules = d.modules) (hw : d.warnings ⊆ d'.warnings) (hl : d'.loading = d.loading) :
    Grows d d' :=
  ⟨by simp [hv], ⟨[], by simp [hm]⟩, hw, fun _ _ h => hl ▸ h⟩

theorem subset_of_eq_or_append {α : Type} {xs ys : List α}
    (h : ys = xs ∨ ∃ x, ys = xs ++ [x]) : xs ⊆ ys := by
  rcases h with rfl | ⟨x, rfl⟩
  · exact List.Subset.refl _
  · exact List.subset_append_left _ _

theorem Nested.grows {j : Job} {js new : List Job} {d d' : Discovery}
    (h : Nested view s ⟨j :: js, d⟩) (hj : Does view s j d new d') : Grows d d' := by
  cases hj with
  | known _ => exact .of_eq rfl rfl (List.Subset.refl _) rfl
  | arity =>
      exact .of_eq (checkArity_visited ..) (checkArity_modules ..)
        (subset_of_eq_or_append (checkArity_warnings ..)) (checkArity_loading ..)
  | skipped _ => exact .of_eq rfl rfl (List.Subset.refl _) rfl
  | declared _ _ _ => exact .of_eq rfl rfl (List.Subset.refl _) rfl
  | circular _ _ _ => exact .of_eq rfl rfl (List.subset_append_left _ _) rfl
  | followed _ _ => exact .of_eq rfl rfl (List.Subset.refl _) rfl
  | @recorded o m =>
      refine ⟨by simp, ⟨[recordOf s o m], record_modules .., fun r hr => ?_⟩,
        subset_of_eq_or_append (record_warnings ..), fun p _ hp => by simpa using hp⟩
      rw [List.mem_singleton.mp hr]
      exact h.origin_loading rfl
  | left =>
      exact ⟨List.Subset.refl _, ⟨[], by simp [Discovery.leave]⟩, List.Subset.refl _,
        fun p _ hp hp' => hp (List.mem_of_mem_erase hp')⟩
  | @opened path _ _ _ _ _ hnew hfetch _ =>
      obtain ⟨cache, -, rfl⟩ := fetch_eq_ok hfetch
      refine ⟨List.subset_append_left _ _, ⟨[], by simp [enter]⟩, List.Subset.refl _, ?_⟩
      intro p hv hp hp'
      rcases List.mem_cons.mp hp' with rfl | hp'
      · exact hnew hv
      · exact hp hp'

theorem Does.record_or_eq {j : Job} {new : List Job} {d d' : Discovery}
    (h : Does view s j d new d') :
    (∃ o m, j = .record o m ∧ new = [] ∧ d' = d.record (recordOf s o m)) ∨
      (d'.modules = d.modules ∧ d'.declaredIn = d.declaredIn) := by
  cases h with
  | recorded => exact .inl ⟨_, _, rfl, rfl, rfl⟩
  | arity => exact .inr ⟨checkArity_modules .., checkArity_declaredIn ..⟩
  | opened _ hfetch _ =>
      obtain ⟨cache, -, rfl⟩ := fetch_eq_ok hfetch
      exact .inr ⟨rfl, rfl⟩
  | _ => exact .inr ⟨rfl, rfl⟩

/-- No job but an opened file brings records. -/
theorem Does.opened_of_record_mem {j : Job} {new : List Job} {d d' : Discovery} {o : Origin}
    {m : Declaration} (h : Does view s j d new d') (hm : .record o m ∈ new) :
    ∃ path t ms, new = jobsOfFile (originOf s path t) ms := by
  cases h with
  | opened _ _ _ => exact ⟨_, _, _, rfl⟩
  | _ => simp at hm

/-- A loader does what the steps do as long as `n` covers the files that can still be opened, with
fewer than `b` of them inside each other. -/
def IsStepwise (view : FileView) (s : Settings) (b n : Nat) (load : Loader) : Prop :=
  ∀ (path : String) (referrer : Option String) (js : List Job) (d : Discovery),
    Nested view s ⟨.file path referrer :: js, d⟩ → b ≤ n + d.loading.length →
    Leads view s ⟨.file path referrer :: js, d⟩ js (load path referrer d)

variable {b n : Nat} {load : Loader}

/-- Jobs that leave nothing leave the files inside each other as they were. -/
theorem Nested.loading_eq (js js' : List Job) {d d' : Discovery}
    (h : Nested view s ⟨js ++ js', d⟩) (hs : Steps view s ⟨js ++ js', d⟩ ⟨js', d'⟩)
    (hjs : js.filterMap Job.leaves? = []) : d'.loading = d.loading := by
  have he := (h.steps hs).loading
  have hb := h.loading
  simp only [List.filterMap_append, hjs, List.nil_append] at he hb
  exact he.trans hb.symm

theorem leads_visitDependency (hload : IsStepwise view s b n load) (o : Origin) (m : Declaration)
    (dep : String) (js : List Job) (d : Discovery)
    (hn : Nested view s ⟨.dependency o m dep :: js, d⟩)
    (hd : b ≤ n + d.loading.length) :
    Leads view s ⟨.dependency o m dep :: js, d⟩ js
      (visitDependency load s o.path m.id d dep) := by
  unfold visitDependency
  split
  · rename_i hskip
    refine ReflTransGen.single (.done (.skipped fun hf => ?_))
    simp [hf.1, hf.2] at hskip
  · rename_i hskip
    have hf : Follows s m.id dep := by
      simpa [Follows, not_or] using hskip
    split
    · rename_i hl
      have hmem : s.pathOf dep ∈ d.loading := by simpa using hl
      split
      · rename_i he
        exact ReflTransGen.single (.done (.declared hf hmem (by simpa using he)))
      · rename_i he
        exact ReflTransGen.single (.done (.circular hf hmem (by simpa using he)))
    · rename_i hl
      have hs : Step view s ⟨.dependency o m dep :: js, d⟩
          ⟨.file (s.pathOf dep) (some o.path) :: js, d⟩ :=
        .job (.followed hf (by simpa using hl))
      exact Leads.head hs (hload _ _ js d (hn.step hs) hd)

theorem leads_dependencies (hload : IsStepwise view s b n load) (o : Origin) (m : Declaration)
    (deps : List String) (js : List Job) (d : Discovery)
    (hn : Nested view s ⟨deps.map (.dependency o m) ++ js, d⟩)
    (hd : b ≤ n + d.loading.length) :
    Leads view s ⟨deps.map (.dependency o m) ++ js, d⟩ js
      (deps.foldlM (visitDependency load s o.path m.id) d) := by
  induction deps generalizing d with
  | nil => exact ReflTransGen.refl
  | cons dep deps ih =>
      rw [List.foldlM_cons]
      refine Leads.bind (leads_visitDependency hload o m dep _ d hn hd) fun d' hs => ?_
      have hl := Nested.loading_eq [.dependency o m dep] _ hn hs rfl
      exact ih d' (hn.steps hs) (by rw [hl]; exact hd)

theorem leads_visitDeclaration (hload : IsStepwise view s b n load) (o : Origin)
    (m : Declaration) (js : List Job) (d : Discovery) (hn : Nested view s ⟨jobsOf o m ++ js, d⟩)
    (hd : b ≤ n + d.loading.length) :
    Leads view s ⟨jobsOf o m ++ js, d⟩ js (visitDeclaration load s o d m) := by
  have ha : Step view s ⟨jobsOf o m ++ js, d⟩
      ⟨m.deps.map (.dependency o m) ++ (.record o m :: js), checkArity o m d⟩ := by
    simp only [jobsOf, List.cons_append, List.append_assoc, List.nil_append]
    exact .done .arity
  have hdeps := leads_dependencies hload o m m.deps (.record o m :: js) _ (hn.step ha)
    (by simpa using hd)
  exact Leads.head ha (Leads.bind hdeps fun d' _ => ReflTransGen.single (.done .recorded))

theorem leads_declarations (hload : IsStepwise view s b n load) (o : Origin)
    (ms : List Declaration) (js : List Job) (d : Discovery)
    (hn : Nested view s ⟨ms.flatMap (jobsOf o) ++ js, d⟩)
    (hd : b ≤ n + d.loading.length) :
    Leads view s ⟨ms.flatMap (jobsOf o) ++ js, d⟩ js (ms.foldlM (visitDeclaration load s o) d) := by
  induction ms generalizing d with
  | nil => exact ReflTransGen.refl
  | cons m ms ih =>
      rw [List.flatMap_cons, List.append_assoc] at hn ⊢
      rw [List.foldlM_cons]
      refine Leads.bind (leads_visitDeclaration hload o m _ d hn hd) fun d' hs => ?_
      have hl := hn.loading_eq (jobsOf o m) _ hs (leaves_jobsOf o m)
      exact ih d' (hn.steps hs) (by rw [hl]; exact hd)

theorem leads_loadFile (hb : ∀ c, Nested view s c → c.found.loading.length < b) (n : Nat) :
    IsStepwise view s b n (loadFile view s n) := by
  induction n with
  | zero =>
      intro path referrer js d hn hd
      have hlt := hb _ hn
      simp only [Nat.zero_add] at hd
      exact absurd hd (Nat.not_le.mpr hlt)
  | succ n ih =>
      intro path referrer js d hn hd
      rw [loadFile]
      split
      · rename_i hv
        exact ReflTransGen.single (.done (.known (by simpa using hv)))
      · rename_i hv
        have hnew : path ∉ d.visited := by simpa using hv
        cases hfetch : fetch view s path referrer (d.enter path) with
        | error h => exact ⟨_, ReflTransGen.refl, .unreadable hnew hfetch⟩
        | ok found =>
            obtain ⟨t, d'⟩ := found
            change Leads view s _ js (visitSource (loadFile view s n) s path t d')
            unfold visitSource
            dsimp only
            split
            · rename_i reason hms
              exact ⟨_, ReflTransGen.refl, .malformed hnew hfetch hms⟩
            · rename_i ms hms
              have ho : Step view s ⟨.file path referrer :: js, d⟩
                  ⟨jobsOfFile (originOf s path t) ms ++ js, d'⟩ :=
                .job (.opened hnew hfetch hms)
              have hn' := hn.step ho
              have hl : d'.loading = path :: d.loading := by
                obtain ⟨cache, -, rfl⟩ := fetch_eq_ok hfetch
                rfl
              refine Leads.head ho ?_
              simp only [jobsOfFile, List.append_assoc] at hn' ⊢
              refine Leads.bind (leads_declarations ih _ ms _ d' hn' ?_) fun d'' _ => ?_
              · rw [hl, List.length_cons]
                omega
              · exact ReflTransGen.single (.done .left)

/-- The entries that an input stands for, or why the files are not known. -/
def entriesOf (view : FileView) (input : String) : Except BuildFault (List String) :=
  if Path.Glob.isPattern input.toList then
    match view.walk (Path.Glob.staticBase input) with
    | .error e => .error (.inaccessible (Path.Glob.staticBase input) e)
    | .ok files => .ok (matching input files)
  else .ok [input]

def entries (view : FileView) (s : Settings) : Except BuildFault (List String) := do
  return (← s.input.mapM (entriesOf view)).flatten

/-- Before anything is loaded: the entries are to be loaded one after the other. -/
def opening (es : List String) (cache : FileCache) (log : List Message) : Stage :=
  ⟨es.map (.file · none), { start cache with log }⟩

theorem expand_eq (view : FileView) (input : String) (d : Discovery) :
    ∃ log, expand view d input = match entriesOf view input with
      | .ok es => .ok (es, { d with log })
      | .error f => .error ⟨.of f, d⟩ := by
  unfold expand entriesOf
  split
  · dsimp only
    cases view.walk (Path.Glob.staticBase input) with
    | error e => exact ⟨d.log, rfl⟩
    | ok files =>
        dsimp only
        cases matching input files with
        | nil => exact ⟨_, rfl⟩
        | cons e es => exact ⟨d.log, rfl⟩
  · exact ⟨d.log, rfl⟩

theorem expandAll_eq (view : FileView) (inputs : List String) (d : Discovery) :
    ∃ log, expandAll view inputs d = match inputs.mapM (entriesOf view) with
      | .ok ess => .ok (ess.flatten, { d with log })
      | .error f => .error ⟨.of f, { d with log }⟩ := by
  induction inputs generalizing d with
  | nil => exact ⟨d.log, rfl⟩
  | cons input inputs ih =>
      obtain ⟨log, he⟩ := expand_eq view input d
      rw [List.mapM_cons]
      cases hi : entriesOf view input with
      | error f => exact ⟨d.log, by simp only [expandAll, he, hi]; rfl⟩
      | ok es =>
          obtain ⟨log', hr⟩ := ih { d with log }
          refine ⟨log', ?_⟩
          simp only [expandAll, he, hi]
          cases hm : inputs.mapM (entriesOf view) with
          | error f => simp only [hm] at hr; simp [bind, Except.bind, hr]
          | ok ess => simp only [hm] at hr; simp [bind, Except.bind, hr, pure, Except.pure]

theorem nested_opening (view : FileView) (s : Settings) (es : List String) (cache : FileCache)
    (log : List Message) : Nested view s (opening es cache log) := by
  have hjobs : ∀ j ∈ (opening es cache log).agenda, j.leaves? = none ∧ j.origin? = none := by
    intro j hj
    obtain ⟨e, -, rfl⟩ := List.mem_map.mp hj
    exact ⟨rfl, rfl⟩
  refine ⟨?_, List.nodup_nil, List.nodup_nil, by simp [opening, start], by simp [opening, start],
    ?_⟩
  · exact (List.filterMap_eq_nil_iff.mpr fun j hj => (hjobs j hj).1).symm
  · intro js₁ j js₂ o he ho
    rw [(hjobs j (by simp [he])).2] at ho
    cases ho

theorem leads_entries (view : FileView) (s : Settings)
    (hb : ∀ c, Nested view s c → c.found.loading.length < b) (hn : b ≤ n) (es : List String)
    (js : List Job) (d : Discovery)
    (hnested : Nested view s ⟨es.map (.file · none) ++ js, d⟩) :
    Leads view s ⟨es.map (.file · none) ++ js, d⟩ js
      (es.foldlM (fun d path => loadFile view s n path none d) d) := by
  induction es generalizing d with
  | nil => exact ReflTransGen.refl
  | cons e es ih =>
      rw [List.foldlM_cons]
      have hload := leads_loadFile hb n e none _ d hnested (Nat.le_add_right_of_le hn)
      exact Leads.bind hload fun d' hs => ih d' (hnested.steps hs)

/-- How a discovery ends: with a state in which every job is done, or else at inputs whose files are
not known, at a file that cannot be opened, or without any module. -/
theorem run_cases (view : FileView) (s : Settings) (cache : FileCache) :
    (∃ f d, entries view s = .error f ∧ run view s cache = .error ⟨.of f, d⟩) ∨
    ∃ es log, entries view s = .ok es ∧
      ((∃ d, Steps view s (opening es cache log) ⟨[], d⟩ ∧
          run view s cache = if d.modules.isEmpty then d.halt .nothingDiscovered else .ok d) ∨
        ∃ c h, Steps view s (opening es cache log) c ∧ Halts view s c h ∧
          run view s cache = .error h) := by
  obtain ⟨log, he⟩ := expandAll_eq view s.input (start cache)
  unfold run entries
  cases hm : s.input.mapM (entriesOf view) with
  | error f =>
      rw [hm] at he
      exact .inl ⟨f, _, rfl, by simp only [he]; rfl⟩
  | ok ess =>
      rw [hm] at he
      refine .inr ⟨ess.flatten, log, rfl, ?_⟩
      have hl := leads_entries view s (fun _ h => h.length_loading_lt) (Nat.le_refl _) ess.flatten
        [] { start cache with log }
        (by simpa [opening] using nested_opening view s ess.flatten cache log)
      rw [List.append_nil] at hl
      simp only [he]
      cases hf : ess.flatten.foldlM
          (fun d path => loadFile view s (depth view s) path none d)
          ({ start cache with log } : Discovery) with
      | ok d =>
          rw [hf] at hl
          exact .inl ⟨d, hl, by simp only [bind, Except.bind, hf]; rfl⟩
      | error h =>
          rw [hf] at hl
          obtain ⟨c, hc, hh⟩ := hl
          exact .inr ⟨c, h, hc, hh, by simp only [bind, Except.bind, hf]⟩

/-- A discovery that succeeds has done every job and has found a module. -/
theorem steps_of_run {cache : FileCache} {d : Discovery} (h : run view s cache = .ok d) :
    ∃ es log, entries view s = .ok es ∧ Steps view s (opening es cache log) ⟨[], d⟩ ∧
      d.modules ≠ [] := by
  rcases run_cases view s cache with ⟨f, d', -, he⟩ | ⟨es, log, hes, hr⟩
  · rw [he] at h
    cases h
  · rcases hr with ⟨d', hs, he⟩ | ⟨c, hh, -, -, he⟩
    · rw [he] at h
      split at h
      · simp [halt] at h
      · rename_i hm
        cases h
        exact ⟨es, log, hes, hs, by simpa using hm⟩
    · rw [he] at h
      cases h

end

/-- Options for files that all come with them. -/
def inlineOptions (inputs : List String) (sources : List (String × String)) : Options :=
  { Options.empty with
    inputs := some (.many inputs), inlineSources := some (Assoc.ofList sources) }

/-- What a build in the root directory finds when there is nothing on disk. -/
def inlineRun (o : Options) : Option (Settings × Discovery) :=
  match o.settings "/" with
  | .error _ => none
  | .ok s => match run (Listing.view ∅) s .empty with
    | .error _ => none
    | .ok d => some (s, d)

/-- A module `id` below the root that asks for `other`, as it comes with the options. -/
def requiring (id other : String) : ModuleRecord :=
  ⟨id, "/" ++ id ++ ".js", "define('" ++ id ++ "', ['" ++ other ++ "'], () => 0)", [other], true,
    true, 0⟩

theorem of_inlineRun {o : Options} {s : Settings} {d : Discovery}
    (h : inlineRun o = some (s, d)) :
    o.settings "/" = .ok s ∧ run (Listing.view ∅) s .empty = .ok d := by
  unfold inlineRun at h
  split at h
  · cases h
  · rename_i s' hs
    split at h
    · cases h
    · rename_i d' hd
      cases h
      exact ⟨hs, hd⟩

/-- What is read off such a build holds of its settings and of what it finds. -/
theorem exists_of_inlineRun {o : Options} {force hash : Bool} {input visited : List String}
    {outputs : Outputs}
    (h : (inlineRun o).map (fun r => (r.1.force, r.1.hash, r.1.input, r.1.outputs, r.2.visited)) =
      some (force, hash, input, outputs, visited)) :
    ∃ s d, o.settings "/" = .ok s ∧ s.force = force ∧ s.hash = hash ∧ s.input = input ∧
      s.outputs = outputs ∧ run (Listing.view ∅) s .empty = .ok d ∧ d.visited = visited := by
  obtain ⟨⟨s, d⟩, hrun, he⟩ := Option.map_eq_some_iff.mp h
  simp only [Prod.mk.injEq] at he
  obtain ⟨hforce, hhash, hinput, houtputs, hvisited⟩ := he
  obtain ⟨hs, hd⟩ := of_inlineRun hrun
  exact ⟨s, d, hs, hforce, hhash, hinput, houtputs, hd, hvisited⟩

end DefineBundle.Discovery
