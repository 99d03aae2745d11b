import DefineBundle.Proofs.Discovery.Cycles
import DefineBundle.Proofs.Discovery.Repeatable
import Mathlib.Data.Prod.Lex
import Mathlib.Data.Set.Card

/-!
# Every discovery comes to an end

Ids lead to any number of paths, and files may ask for one another in circles. But a file is opened
only at a path that has a text and has not been visited, and the path is visited from then on; and
between two files that are opened the agenda gets shorter. So no discovery goes on for ever. It
loads no more paths than have a text, and one more when the last one stops it, and it is the same
for every bound on the files inside each other that is above the number of these paths.
-/
namespace DefineBundle.Discovery

open Relation (ReflTransGen)

/-- The paths that have a text: those of files and those of inline sources. -/
def present (view : FileView) (s : Settings) : Set String :=
  {p | view.isFile p = true ∨ s.inlineSources.contains p = true}

/-- The discovery with at most `n` files inside each other. -/
def runWithin (view : FileView) (s : Settings) (n : Nat) (cache : FileCache) :
    Except (Halted Discovery) Discovery := do
  let (entries, d) ← expandAll view s.input (start cache)
  let d ← entries.foldlM (fun d path => loadFile view s n path none d) d
  if d.modules.isEmpty then d.halt .nothingDiscovered else return d

/-- The path that a job loads: that of a file which has not been visited. -/
def Job.loads? (d : Discovery) : Job → Option String
  | file path _ => if path ∈ d.visited then none else some path
  | _ => none

/-- The paths loaded by the jobs that were done and by the job whose turn it is. -/
def loads (ws : List Work) (c : Stage) : List String :=
  ws.filterMap (fun w => w.job.loads? w.before) ++ (c.agenda.head?.bind (·.loads? c.found)).toList

/-- The bounds that a discovery keeps: every path that was loaded had a text and had not been
visited before; no more paths are loaded than have a text, but for one that may yet stop the
discovery; and no more files are inside each other. -/
structure WithinBounds (view : FileView) (s : Settings) (ws : List Work) (c : Stage) : Prop where
  consumes : ∀ w ∈ ws, ∀ p, w.job.loads? w.before = some p →
    p ∈ present view s ∧ p ∉ w.before.visited ∧ w.after.visited = w.before.visited ++ [p]
  loads : (loads ws c).length ≤ (present view s).ncard + 1
  nested : c.found.loading.length ≤ (present view s).ncard

section
variable {view : FileView} {s : Settings} {c c' : Stage} {ws : List Work} {d d' : Discovery}
variable {j : Job} {new : List Job}

theorem finite_present (view : FileView) (s : Settings) : (present view s).Finite := by
  have hfiles : {p | view.isFile p = true}.Finite := by
    -- else there are more of these paths than the view has room for
    by_contra hinfinite
    obtain ⟨ps, hps, hcard⟩ :=
      Set.Infinite.exists_subset_card_eq hinfinite (view.capacity + 1)
    have hle := view.length_le_capacity ps.toList ps.nodup_toList fun p hp =>
      hps (Finset.mem_coe.mpr (Finset.mem_toList.mp hp))
    rw [Finset.length_toList, hcard] at hle
    omega
  have hsources : {p | s.inlineSources.contains p = true}.Finite := by
    refine (s.inlineSources.entries.map Prod.fst).finite_toSet.subset fun p hp => ?_
    exact Assoc.contains_iff.mp hp
  exact hfiles.union hsources

theorem length_le_ncard {ps : List String} (hn : ps.Nodup) (hps : ∀ p ∈ ps, p ∈ present view s) :
    ps.length ≤ (present view s).ncard := by
  have hsub : (ps.toFinset : Set String) ⊆ present view s := fun p hp =>
    hps p (List.mem_toFinset.mp (Finset.mem_coe.mp hp))
  have hle := Set.ncard_le_ncard hsub (finite_present view s)
  rwa [Set.ncard_coe_finset, List.toFinset_card_of_nodup hn] at hle

theorem Nested.length_loading_le (h : Nested view s c) :
    c.found.loading.length ≤ (present view s).ncard :=
  length_le_ncard h.loading_nodup h.loading_present

theorem Job.notMem_of_loads? {p : String} (h : j.loads? d = some p) : p ∉ d.visited := by
  cases j with
  | file path referrer =>
      obtain ⟨hnew, hp⟩ := Option.ite_none_left_eq_some.mp h
      exact Option.some.inj hp ▸ hnew
  | _ => cases h

theorem Does.visited_eq (h : Does view s j d new d') :
    d'.visited = d.visited ++ (j.loads? d).toList ∧ ∀ p ∈ j.loads? d, p ∈ present view s := by
  cases h with
  | known hv => simp [Job.loads?, hv]
  | opened hnew hfetch _ =>
      obtain ⟨cache, hfind, rfl⟩ := fetch_eq_ok hfetch
      simp only [Job.loads?, hnew, if_false, enter]
      exact ⟨rfl, fun p hp => Option.mem_some.mp hp ▸ isFile_or_contains_of_find hfind⟩
  | arity => simp [Job.loads?]
  | recorded => simp [Job.loads?]
  | _ => simp [Job.loads?, warn, say, Discovery.leave]

/-- The number of paths with a text that are still to be visited. -/
noncomputable def unvisited (view : FileView) (s : Settings) (d : Discovery) : Nat :=
  (present view s \ {p | p ∈ d.visited}).ncard

/-- What a job weighs: a dependency may turn into a file. -/
def Job.weight : Job → Nat
  | dependency _ _ _ => 2
  | _ => 1

def Stage.weight (c : Stage) : Nat :=
  (c.agenda.map Job.weight).sum

theorem unvisited_lt {p : String} (hp : p ∈ present view s) (hnew : p ∉ d.visited)
    (hv : d'.visited = d.visited ++ [p]) : unvisited view s d' < unvisited view s d := by
  have hmem : ∀ q, q ∈ d'.visited ↔ q ∈ d.visited ∨ q = p := by simp [hv]
  refine Set.ncard_lt_ncard ⟨fun q hq => ⟨hq.1, fun hold => ?_⟩, fun hsub => ?_⟩
    ((finite_present view s).subset Set.sdiff_subset)
  · exact hq.2 ((hmem q).mpr (.inl hold))
  · exact (hsub ⟨hp, hnew⟩).2 ((hmem p).mpr (.inr rfl))

theorem Does.weight_lt (h : Does view s j d new d') (hj : j.loads? d = none) :
    (new.map Job.weight).sum < j.weight := by
  cases h with
  | opened hnew _ _ => simp [Job.loads?, hnew] at hj
  | _ => simp [Job.weight]

/-- With every step there are fewer paths to be visited, or as many and less to do. -/
theorem Step.lex_lt (h : Step view s c c') :
    Prod.Lex (· < ·) (· < ·) (unvisited view s c'.found, c'.weight)
      (unvisited view s c.found, c.weight) := by
  obtain @⟨j, js, new, d, d', hj⟩ := h
  obtain ⟨hv, hpresent⟩ := hj.visited_eq
  cases hloads : j.loads? d with
  | none =>
      have hsame : unvisited view s d' = unvisited view s d := by
        simp [unvisited, hv, hloads]
      have hlt := hj.weight_lt hloads
      rw [hsame]
      refine .right _ ?_
      simp only [Stage.weight, List.map_append, List.sum_append, List.map_cons, List.sum_cons]
      omega
  | some p =>
      rw [hloads, Option.toList_some] at hv
      exact .left _ _ (unvisited_lt (hpresent p hloads) (Job.notMem_of_loads? hloads) hv)

theorem wellFounded_step (view : FileView) (s : Settings) :
    WellFounded fun c' c => Step view s c c' :=
  Subrelation.wf (fun h => Step.lex_lt h)
    (InvImage.wf (fun c : Stage => (unvisited view s c.found, c.weight))
      (WellFounded.prod_lex Nat.lt_wfRel.wf Nat.lt_wfRel.wf))

theorem Worked.visited_eq (h : Worked view s c ws c') : c'.found.visited =
    c.found.visited ++ ws.filterMap fun w => w.job.loads? w.before := by
  induction h with
  | nil => simp
  | @cons j js new d d' ws c' hj _ ih =>
      rw [ih, hj.visited_eq.1, List.append_assoc]
      cases hloads : j.loads? d with
      | none => simp [hloads]
      | some p => simp [hloads]

theorem present_of_steps {es : List String} {cache : FileCache} {log : List Message}
    (hs : Steps view s (opening es cache log) c) : ∀ p ∈ c.found.visited, p ∈ present view s := by
  induction hs with
  | refl => simp [opening, start]
  | tail _ hstep ih =>
      obtain @⟨j, js, new, d, d', hj⟩ := hstep
      obtain ⟨hv, hpresent⟩ := hj.visited_eq
      intro p hp
      rw [hv] at hp
      rcases List.mem_append.mp hp with hp | hp
      · exact ih p hp
      · exact hpresent p (Option.mem_toList.mp hp)

theorem Worked.steps (h : Worked view s c ws c') : Steps view s c c' := by
  induction h with
  | nil => exact .refl
  | cons hj _ ih => exact ReflTransGen.head (.job hj) ih

theorem withinBounds_of_worked {es : List String} {cache : FileCache} {log : List Message}
    (h : Worked view s (opening es cache log) ws c) : WithinBounds view s ws c := by
  have hnested := (nested_opening view s es cache log).steps h.steps
  have hlength := length_le_ncard hnested.visited_nodup (present_of_steps h.steps)
  have hvisited : c.found.visited = ws.filterMap fun w => w.job.loads? w.before := by
    simpa [opening, start] using h.visited_eq
  refine ⟨fun w hw p hp => ?_, ?_, hnested.length_loading_le⟩
  · obtain ⟨js, new, ws', -, hdoes, -⟩ := h.exists_stage hw
    obtain ⟨hv, hpresent⟩ := hdoes.visited_eq
    rw [hp, Option.toList_some] at hv
    exact ⟨hpresent p hp, Job.notMem_of_loads? hp, hv⟩
  · rw [Discovery.loads, ← hvisited, List.length_append]
    have hone := Option.length_toList_le (o := c.agenda.head?.bind (·.loads? c.found))
    omega

/-- Bounds on the nesting that are never met make no difference. -/
theorem runWithin_eq_run {n : Nat} (hn : (present view s).ncard < n) (cache : FileCache) :
    runWithin view s n cache = run view s cache := by
  obtain ⟨log, he⟩ := expandAll_eq view s.input (start cache)
  unfold runWithin run
  rw [he]
  cases s.input.mapM (entriesOf view) with
  | error f => rfl
  | ok ess =>
      have hnested : Nested view s
          ⟨ess.flatten.map (.file · none) ++ [], { start cache with log }⟩ := by
        simpa [opening] using nested_opening view s ess.flatten cache log
      -- the same steps lead to the results of both, and they lead to one result only
      have hwithin := leads_entries view s (fun _ h => Nat.lt_succ_of_le h.length_loading_le) hn
        ess.flatten [] _ hnested
      have hrun := leads_entries view s (fun _ h => h.length_loading_lt) (Nat.le_refl _)
        ess.flatten [] _ hnested
      exact congrArg (fun r => r >>= fun d : Discovery =>
        if d.modules.isEmpty then d.halt .nothingDiscovered else return d)
        (hwithin.unique hrun)

/-- Every discovery comes to an end: there is no endless sequence of steps, and the steps of a
discovery lead to its result, within their bounds. A bound on the nesting above the number of paths
with a text is never met. -/
theorem run_terminates (view : FileView) (s : Settings) (cache : FileCache) :
    (present view s).Finite ∧ WellFounded (fun c' c => Step view s c c') ∧
      (∀ es log ws c, Worked view s (opening es cache log) ws c → WithinBounds view s ws c) ∧
      (∀ n, (present view s).ncard < n → runWithin view s n cache = run view s cache) ∧
      ((∃ fault d, entries view s = .error fault ∧ run view s cache = .error ⟨.of fault, d⟩) ∨
        ∃ es log ws c, entries view s = .ok es ∧ Worked view s (opening es cache log) ws c ∧
          (c.agenda = [] ∧ run view s cache =
              (if c.found.modules.isEmpty then c.found.halt .nothingDiscovered else .ok c.found) ∨
            ∃ h, Halts view s c h ∧ run view s cache = .error h)) := by
  refine ⟨finite_present view s, wellFounded_step view s, fun _ _ _ _ => withinBounds_of_worked,
    fun n hn => runWithin_eq_run hn cache, ?_⟩
  rcases run_cases view s cache with ⟨fault, d, hentries, hrun⟩ | ⟨es, log, hentries, hcases⟩
  · exact .inl ⟨fault, d, hentries, hrun⟩
  · right
    rcases hcases with ⟨d, hsteps, hrun⟩ | ⟨c, h, hsteps, hhalts, hrun⟩
    · obtain ⟨ws, hws⟩ := exists_worked hsteps
      exact ⟨es, log, ws, _, hentries, hws, .inl ⟨rfl, hrun⟩⟩
    · obtain ⟨ws, hws⟩ := exists_worked hsteps
      exact ⟨es, log, ws, c, hentries, hws, .inr ⟨h, hhalts, hrun⟩⟩

end

/-- Where two files ask for each other no more than three are loaded, and a bound of three files
inside each other is never met. -/
theorem run_terminates_mutual : ∃ (s : Settings) (d : Discovery),
    askingEachOther.settings "/" = .ok s ∧ (present (Listing.view ∅) s).ncard = 2 ∧
      run (Listing.view ∅) s .empty = .ok d ∧ runWithin (Listing.view ∅) s 3 .empty = .ok d ∧
      ∃ es log ws c, Worked (Listing.view ∅) s (opening es .empty log) ws c ∧ c.found = d ∧
        c.agenda = [] ∧ (loads ws c).length ≤ 3 := by
  have hfound : (inlineRun askingEachOther).map (fun r => r.1.inlineSources.entries.map Prod.fst) =
      some ["/a.js", "/b.js"] := by
    decide +kernel
  obtain ⟨⟨s, d⟩, hrun, hkeys⟩ := Option.map_eq_some_iff.mp hfound
  obtain ⟨hs, hd⟩ := of_inlineRun hrun
  have hpresent : present (Listing.view ∅) s = {"/a.js", "/b.js"} := by
    ext p
    have hnone : (Listing.view ∅).isFile p = false := rfl
    simp [present, hnone, Assoc.contains_iff, hkeys]
  have hcard : (present (Listing.view ∅) s).ncard = 2 := by
    rw [hpresent]
    exact Set.ncard_pair (by decide)
  obtain ⟨-, -, hbounds, hwithin, hcases⟩ := run_terminates (Listing.view ∅) s .empty
  refine ⟨s, d, hs, hcard, hd, (hwithin 3 (by omega)).trans hd, ?_⟩
  rcases hcases with ⟨_, _, _, he⟩ | ⟨es, log, ws, c, _, hw, ⟨hdone, he⟩ | ⟨_, _, he⟩⟩
  · cases hd.symm.trans he
  · have hloads := (hbounds es log ws c hw).loads
    rw [hcard] at hloads
    rw [hd] at he
    split at he
    · cases he
    · cases he
      exact ⟨es, log, ws, c, hw, rfl, hdone, hloads⟩
  · cases hd.symm.trans he

end DefineBundle.Discovery
