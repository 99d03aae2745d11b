import DefineBundle.Files.Cache
import DefineBundle.Files.Listing
import Mathlib.Data.List.Dedup
import Mathlib.Data.List.Induction

/-!
# What a cache serves

However files change while a cache is in use, it answers with what was first read of a path since it
was cleared, and asks the files only for paths of which nothing was read. The invariant of a run is
that the cache holds exactly these first texts: it is described by the answers that were given, and
not by the files.
-/
namespace DefineBundle.FileCache

variable {σ : Type}

/-- A text is asked for, the cache is cleared, or the files are written, removed or changed in
whatever way from outside. -/
inductive Step (σ : Type)
  | read (path : String)
  | change (change : σ → σ)
  | clear

/-- A cache in use, with the files as they stand and the answers since the cache was last cleared.
-/
structure Session (σ : Type) where
  cache : FileCache
  files : σ
  answers : List (String × Except IoFault String)

/-- A cache to which nothing has happened yet. -/
def Session.start (files : σ) : Session σ :=
  ⟨.empty, files, []⟩

def Session.step (view : σ → FileView) (s : Session σ) : Step σ → Session σ
  | .read path =>
      let (answer, cache) := s.cache.read (view s.files) path
      ⟨cache, s.files, s.answers ++ [(path, answer)]⟩
  | .change f => { s with files := f s.files }
  | .clear => { s with cache := s.cache.clear, answers := [] }

def Session.run (view : σ → FileView) (s : Session σ) (steps : List (Step σ)) : Session σ :=
  steps.foldl (Session.step view) s

/-- The text that was first read of a path, however the path was spelled. -/
def firstText? (answers : List (String × Except IoFault String)) (r : Path.Route) :
    Option String :=
  answers.findSome? fun a => if Path.components a.1 = r then a.2.toOption else none

/-- The paths of which a text was read, each as often as it was. -/
def readRoutes (answers : List (String × Except IoFault String)) : List Path.Route :=
  (answers.filter fun a => a.2.isOk).map fun a => Path.components a.1

/-- The text kept for a route. -/
def find? (c : FileCache) (r : Path.Route) : Option String :=
  (c.texts.find? fun e => e.1 == r).map (·.2)

theorem get?_eq_find? (c : FileCache) (path : String) :
    c.get? path = c.find? (Path.components path) :=
  rfl

theorem find?_append (es es' : List (Path.Route × String)) (r : Path.Route) :
    find? ⟨es ++ es'⟩ r = (find? ⟨es⟩ r).or (find? ⟨es'⟩ r) := by
  rw [find?, List.find?_append, Option.map_or]
  rfl

theorem isSome_find?_iff {c : FileCache} {r : Path.Route} :
    (c.find? r).isSome = true ↔ r ∈ c.texts.map Prod.fst := by
  simp [find?]

theorem firstText?_append (as as' : List (String × Except IoFault String)) (r : Path.Route) :
    firstText? (as ++ as') r = (firstText? as r).or (firstText? as' r) :=
  List.findSome?_append

theorem isSome_firstText?_iff {answers : List (String × Except IoFault String)} {r : Path.Route} :
    (firstText? answers r).isSome = true ↔ r ∈ readRoutes answers := by
  have hok : ∀ a : Except IoFault String, a.toOption.isSome = a.isOk := by
    rintro (e | text) <;> rfl
  simp only [firstText?, List.isSome_findSome?, List.any_eq_true, readRoutes, List.mem_map,
    List.mem_filter]
  constructor
  · rintro ⟨a, ha, hsome⟩
    split at hsome
    · rename_i hr
      exact ⟨a, ⟨ha, by rwa [← hok]⟩, hr⟩
    · cases hsome
  · rintro ⟨a, ⟨ha, hsome⟩, rfl⟩
    exact ⟨a, ha, by rwa [if_pos rfl, hok]⟩

/-- A cache holds the text that was first read of each path, and nothing else. -/
structure Session.Remembers (s : Session σ) : Prop where
  find?_eq : ∀ r, s.cache.find? r = firstText? s.answers r
  nodup : (s.cache.texts.map Prod.fst).Nodup

theorem Session.remembers_start (files : σ) : (Session.start files).Remembers :=
  ⟨fun _ => rfl, List.nodup_nil⟩

theorem read_cases (view : FileView) (path : String) (c : FileCache) :
    (∃ text, c.find? (Path.components path) = some text ∧ c.read view path = (.ok text, c)) ∨
    c.find? (Path.components path) = none ∧
      ((∃ text, view.read path = .ok text ∧
          c.read view path = (.ok text, ⟨c.texts ++ [(Path.components path, text)]⟩)) ∨
        ∃ e, view.read path = .error e ∧ c.read view path = (.error e, c)) := by
  unfold read
  rw [get?_eq_find?]
  cases hc : c.find? (Path.components path) with
  | some text => exact .inl ⟨text, rfl, rfl⟩
  | none =>
      refine .inr ⟨rfl, ?_⟩
      cases hr : view.read path with
      | ok text => exact .inl ⟨text, rfl, rfl⟩
      | error e => exact .inr ⟨e, rfl, rfl⟩

theorem Session.Remembers.step {s : Session σ} (h : s.Remembers) (view : σ → FileView)
    (step : Step σ) : (s.step view step).Remembers := by
  cases step with
  | change f => exact ⟨h.find?_eq, h.nodup⟩
  | clear => exact ⟨fun _ => rfl, List.nodup_nil⟩
  | read path =>
      have hanswer : ∀ (answer : Except IoFault String) (r : Path.Route),
          firstText? (s.answers ++ [(path, answer)]) r = (s.cache.find? r).or
            (if Path.components path = r then answer.toOption else none) := by
        intro answer r
        rw [firstText?_append, h.find?_eq]
        simp [firstText?]
      rcases read_cases (view s.files) path s.cache with ⟨text, hkept, hread⟩ |
        ⟨hnone, ⟨text, -, hread⟩ | ⟨e, -, hread⟩⟩
      · simp only [Session.step, hread]
        refine ⟨fun r => ?_, h.nodup⟩
        rw [hanswer]
        split
        · rename_i hr
          rw [← hr, hkept]
          rfl
        · rw [Option.or_none]
      · simp only [Session.step, hread]
        refine ⟨fun r => ?_, ?_⟩
        · rw [hanswer, find?_append]
          congr 1
          by_cases hr : Path.components path = r <;> simp [find?, hr, Except.toOption]
        · have hnew : Path.components path ∉ s.cache.texts.map Prod.fst := by
            rw [← isSome_find?_iff, hnone]
            exact Bool.false_ne_true
          rw [List.map_append]
          exact h.nodup.append (List.nodup_singleton _)
            (List.disjoint_singleton.mpr hnew)
      · simp only [Session.step, hread]
        refine ⟨fun r => ?_, h.nodup⟩
        rw [hanswer]
        simp [Except.toOption]

theorem Session.remembers_run (view : σ → FileView) (files : σ) (steps : List (Step σ)) :
    ((Session.start files).run view steps).Remembers := by
  induction steps using List.reverseRecOn with
  | nil => exact Session.remembers_start files
  | append_singleton steps step ih =>
      rw [Session.run, List.foldl_append]
      exact ih.step view step

theorem Session.Remembers.size_eq {s : Session σ} (h : s.Remembers) :
    s.cache.size = (readRoutes s.answers).dedup.length := by
  have hperm : (s.cache.texts.map Prod.fst).Perm (readRoutes s.answers).dedup := by
    refine (List.perm_ext_iff_of_nodup h.nodup (List.nodup_dedup _)).mpr fun r => ?_
    rw [List.mem_dedup, ← isSome_find?_iff, h.find?_eq, isSome_firstText?_iff]
  rw [← hperm.length_eq, List.length_map]
  rfl

/-- After any steps, the answer to a reading is the text that was first read of the path since the
cache was cleared, or what the files answer now if there is none. A reading that fails keeps
nothing, and the cache holds as many texts as there are paths of which one was read. -/
theorem serves_first_text (view : σ → FileView) (files : σ) (steps : List (Step σ))
    (path : String) :
    let s := (Session.start files).run view steps
    (s.cache.read (view s.files) path).1 =
        (match firstText? s.answers (Path.components path) with
          | some text => .ok text
          | none => (view s.files).read path) ∧
      ((s.cache.read (view s.files) path).1.isOk = false →
        (s.cache.read (view s.files) path).2 = s.cache) ∧
      s.cache.size = (readRoutes s.answers).dedup.length := by
  intro s
  have h : s.Remembers := Session.remembers_run view files steps
  refine ⟨?_, ?_, h.size_eq⟩
  all_goals
    rcases read_cases (view s.files) path s.cache with ⟨text, hkept, hread⟩ |
      ⟨hnone, ⟨text, hnow, hread⟩ | ⟨e, hnow, hread⟩⟩
  · rw [hread, ← h.find?_eq, hkept]
  · rw [hread, ← h.find?_eq, hnone, hnow]
  · rw [hread, ← h.find?_eq, hnone, hnow]
  · rw [hread]
    exact fun hfail => Bool.noConfusion hfail
  · rw [hread]
    exact fun hfail => Bool.noConfusion hfail
  · rw [hread]
    exact fun _ => rfl

/-- A text is read, a reading fails, the text is changed, and it is asked for by another spelling.
-/
theorem serves_first_text_respelled :
    let files := (∅ : Listing).insert "/a.js" ⟨some "1;", 1⟩
    let s := (Session.start files).run Listing.view [.read "/a.js", .read "/b.js",
      .change fun files => (Listing.write "/a.js" "2;" files).2]
    (s.files.view.read "/a.js" = .ok "2;" ∧ (s.cache.read s.files.view "/./a.js").1 = .ok "1;") ∧
      ((s.cache.read s.files.view "/b.js").1.isOk = false ∧
        (s.cache.read s.files.view "/b.js").2 = s.cache) ∧
      s.cache.size = 1 := by
  intro files s
  have hrespelled := serves_first_text Listing.view files [.read "/a.js", .read "/b.js",
    .change fun files => (Listing.write "/a.js" "2;" files).2] "/./a.js"
  have hmissing := serves_first_text Listing.view files [.read "/a.js", .read "/b.js",
    .change fun files => (Listing.write "/a.js" "2;" files).2] "/b.js"
  have hfails : (s.cache.read s.files.view "/b.js").1.isOk = false := by decide +kernel
  refine ⟨⟨by decide +kernel, ?_⟩, ⟨hfails, hmissing.2.1 hfails⟩, ?_⟩
  · refine hrespelled.1.trans ?_
    decide +kernel
  · refine hrespelled.2.2.trans ?_
    decide +kernel

end DefineBundle.FileCache
