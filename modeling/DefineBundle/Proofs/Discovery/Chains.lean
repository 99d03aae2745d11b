import DefineBundle.Proofs.Discovery.Cycles
import DefineBundle.Proofs.Discovery.Reachability
import Mathlib.Data.List.Chain

/-!
# Chains of files

Behind a job on the agenda stand the leavings of the files that are being loaded when its turn
comes, the innermost first. A dependency belongs to the innermost of them, and a file is opened
because the innermost of them asks for it; so every file that is being loaded leads to the one
inside it. A dependency on one of these files therefore closes a cycle of files, and only such
dependencies are reported as cycles.
-/
namespace DefineBundle.Discovery

open DefineBundle.Script (Declaration)
open DefineBundle.Path (IsNormal)
open Relation (ReflTransGen TransGen)

/-- What a job has to do with the files that are being loaded when its turn comes, the innermost
first. -/
inductive Job.Fits (view : FileView) (s : Settings) (es : List String) :
    Job → List String → Prop
  | entry {path : String} : path ∈ es → Fits view s es (.file path none) []
  | asked {path r : String} {ps : List String} : Edge view s r path →
      Fits view s es (.file path (some r)) (r :: ps)
  | own {j : Job} {o : Origin} {ps : List String} : j.origin? = some o →
      Fits view s es j (o.path :: ps)
  | leaving {path : String} {ps : List String} : (∀ q ∈ ps.head?, Edge view s q path) →
      Fits view s es (.leave path) ps

/-- Every job fits the files that are left after it. -/
def Linked (view : FileView) (s : Settings) (es : List String) : List Job → Prop
  | [] => True
  | j :: js => j.Fits view s es (js.filterMap Job.leaves?) ∧ Linked view s es js

section
variable {view : FileView} {s : Settings} {es : List String} {d : Discovery} {js : List Job}

theorem Declares.leads {o : Origin} {m : Declaration} {dep : String}
    (h : Declares view s es o m) (hdep : dep ∈ m.deps) (hf : Follows s m.id dep) :
    Edge view s o.path (s.pathOf dep) := by
  obtain ⟨-, ms, hfile, hm⟩ := h
  exact ⟨o, ms, hfile, m, hm, dep, hdep, hf, rfl⟩

theorem Job.Fits.leave {path : String} {referrer : Option String} {ps : List String}
    (h : Job.Fits view s es (.file path referrer) ps) : Job.Fits view s es (.leave path) ps := by
  cases h with
  | entry _ => exact .leaving (by simp)
  | asked hedge => exact .leaving (by simpa using hedge)
  | own ho => cases ho

/-- What belongs to a declaration is done while its file is the innermost. -/
theorem Job.Fits.innermost {j : Job} {o : Origin} {ps : List String} (h : j.Fits view s es ps)
    (hj : j.origin? = some o) : ∃ outer, ps = o.path :: outer := by
  cases h with
  | own ho =>
      cases ho.symm.trans hj
      exact ⟨_, rfl⟩
  | entry _ => cases hj
  | asked _ => cases hj
  | leaving _ => cases hj

/-- The jobs of the declarations of a file stand in front of its leaving. -/
theorem linked_append_leave {o : Origin} {own : List Job}
    (hown : ∀ j ∈ own, j.origin? = some o) (h : Linked view s es (.leave o.path :: js)) :
    Linked view s es (own ++ .leave o.path :: js) := by
  induction own with
  | nil => exact h
  | cons j own ih =>
      have hrest : ∀ k ∈ own, k.origin? = some o := fun k hk =>
        hown k (List.mem_cons_of_mem _ hk)
      have hnone : own.filterMap Job.leaves? = [] :=
        List.filterMap_eq_nil_iff.mpr fun k hk => leaves?_eq_none (hrest k hk)
      have hleaves : (own ++ .leave o.path :: js).filterMap Job.leaves? =
          o.path :: js.filterMap Job.leaves? := by
        rw [List.filterMap_append, hnone]
        rfl
      refine ⟨?_, ih hrest⟩
      rw [List.append_eq, hleaves]
      exact .own (hown j List.mem_cons_self)

theorem Linked.step {c c' : Stage} (hsound : Sound view s es c)
    (h : Linked view s es c.agenda) (hs : Step view s c c') : Linked view s es c'.agenda := by
  obtain ⟨hj⟩ := hs
  obtain ⟨hfits, hrest⟩ := h
  -- only a file that is opened and a dependency that is followed put jobs on the agenda
  cases hj with
  | opened hnew hfetch hms =>
      rw [jobsOfFile, List.append_assoc]
      refine linked_append_leave (fun j hmem => ?_) ⟨hfits.leave, hrest⟩
      obtain ⟨m, -, hmem⟩ := List.mem_flatMap.mp hmem
      exact origin_of_mem_jobsOf hmem
  | @followed o m dep d hf hl =>
      have hjob : Declares view s es o m ∧ dep ∈ m.deps := hsound.jobs _ List.mem_cons_self
      obtain ⟨outer, houter⟩ := hfits.innermost (o := o) rfl
      refine ⟨?_, hrest⟩
      rw [List.append_eq, List.nil_append, houter]
      exact .asked (hjob.1.leads hjob.2 hf)
  | _ => exact hrest

theorem linked_opening (view : FileView) (s : Settings) (es : List String) (log : List Message) :
    Linked view s es (opening es .empty log).agenda := by
  -- the entries stay the same while the agenda gets shorter
  have hall : ∀ fs ⊆ es, Linked view s es (fs.map (Job.file · none)) := by
    intro fs hfs
    induction fs with
    | nil => trivial
    | cons f fs ih =>
        obtain ⟨hf, hfs⟩ := List.cons_subset.mp hfs
        have hnone : (fs.map (Job.file · none)).filterMap Job.leaves? = [] := by
          simp [List.filterMap_map, Function.comp_def, Job.leaves?]
        refine ⟨?_, ih hfs⟩
        rw [hnone]
        exact .entry hf
  exact hall es (List.Subset.refl es)

theorem linked_of_steps (hes : ∀ e ∈ es, IsNormal e) {log : List Message} {c : Stage}
    (hs : Steps view s (opening es .empty log) c) : Linked view s es c.agenda := by
  induction hs with
  | refl => exact linked_opening view s es log
  | tail hc hstep ih => exact ih.step (explores_of_steps hes hc).sound hstep

theorem Job.Fits.edge {path q : String} {ps : List String}
    (h : Job.Fits view s es (.leave path) ps) (hq : q ∈ ps.head?) : Edge view s q path := by
  cases h with
  | leaving hedge => exact hedge q hq
  | own ho => cases ho

/-- Each of the files being loaded leads to the one inside it. -/
theorem Linked.isChain (h : Linked view s es js) :
    (js.filterMap Job.leaves?).IsChain fun p q => Edge view s q p := by
  induction js with
  | nil => exact .nil
  | cons j js ih =>
      obtain ⟨hfits, hrest⟩ := h
      cases hj : j.leaves? with
      | none =>
          rw [List.filterMap_cons_none hj]
          exact ih hrest
      | some path =>
          rw [List.filterMap_cons_some hj]
          obtain rfl : j = .leave path := by
            cases j <;> cases hj
            rfl
          exact (ih hrest).cons fun q hq => hfits.edge hq

theorem reaches_innermost {p q : String} {ps : List String}
    (h : (p :: ps).IsChain fun p q => Edge view s q p) (hq : q ∈ p :: ps) :
    ReflTransGen (Edge view s) q p := by
  induction ps generalizing p with
  | nil =>
      rw [List.mem_singleton.mp hq]
  | cons r ps ih =>
      obtain ⟨hedge, hrest⟩ := List.isChain_cons_cons.mp h
      rcases List.mem_cons.mp hq with rfl | hq
      · exact .refl
      · exact (ih hrest hq).tail hedge

/-- A dependency on a file that is being loaded closes a cycle of files. -/
theorem Linked.closes_cycle {o : Origin} {m : Declaration} {dep : String}
    (he : Explores view s es ⟨.dependency o m dep :: js, d⟩)
    (h : Linked view s es (.dependency o m dep :: js)) (hf : Follows s m.id dep)
    (hl : s.pathOf dep ∈ d.loading) : TransGen (Edge view s) (s.pathOf dep) (s.pathOf dep) := by
  obtain ⟨outer, houter⟩ := h.1.innermost (o := o) rfl
  have hload : d.loading = js.filterMap Job.leaves? := he.nested.loading
  have hchain := h.2.isChain
  rw [houter] at hchain
  rw [hload, houter] at hl
  have hjob : Declares view s es o m ∧ dep ∈ m.deps := he.sound.jobs _ List.mem_cons_self
  exact .tail' (reaches_innermost hchain hl) (hjob.1.leads hjob.2 hf)

/-- A file of which a cycle is reported lies on a cycle of files, all of them reached. So no cycle
is reported where the files that are reached lead to one another without any. -/
theorem circular_lies_on_cycle {o : Options} {current : String}
    (hs : o.settings current = .ok s) (h : run view s .empty = .ok d) :
    (∀ p, .circularDependency p ∈ d.warnings →
        p ∈ d.visited ∧ TransGen (Edge view s) p p) ∧
      ((∀ p ∈ d.visited, ¬ TransGen (Edge view s) p p) →
        ∀ p, .circularDependency p ∉ d.warnings) := by
  have hcycle : ∀ p, .circularDependency p ∈ d.warnings →
      p ∈ d.visited ∧ TransGen (Edge view s) p p := by
    intro p hp
    obtain ⟨es, log, hentries, hsteps, -⟩ := steps_of_run h
    have hes : ∀ e ∈ es, IsNormal e := fun _ => isNormal_of_mem_entries hs hentries
    obtain ⟨ws, hws⟩ := exists_worked hsteps
    have hissued : d.warnings = ws.flatMap Work.issued := by
      simpa [opening, start] using hws.warnings_eq
    obtain ⟨w, hw, hwp⟩ := List.mem_flatMap.mp (hissued ▸ hp)
    obtain ⟨js, new, ws', hbefore, hdoes, -⟩ := hws.exists_stage hw
    obtain ⟨o, m, dep, hjob, rfl, hf, hl, -⟩ := hdoes.circular_mem_issued_iff.mp hwp
    rw [hjob] at hbefore
    have hexplores := explores_of_steps hes hbefore
    have hreached := hexplores.sound.reached _ (hexplores.nested.loading_visited _ hl)
    exact ⟨((isExact_of_run hes hentries h).mem_visited _).mpr hreached,
      (linked_of_steps hes hbefore).closes_cycle hexplores hf hl⟩
  exact ⟨hcycle, fun hno p hp => hno p (hcycle p hp).1 (hcycle p hp).2⟩

end

/-- An entry that leads into a cycle of two files, one of them with two modules. -/
def askingIntoCycle : Options :=
  inlineOptions ["e.js"]
    [("e.js", "define('e', ['b'], (b) => 0)"),
      ("a.js", "define('c', [], () => 0); define('a', ['b'], (b) => 0)"),
      ("b.js", "define('b', ['a'], (a) => 0)")]

theorem circular_lies_on_cycle_entered : ∃ (s : Settings) (d : Discovery),
    askingIntoCycle.settings "/" = .ok s ∧ run (Listing.view ∅) s .empty = .ok d ∧
      .circularDependency "/b.js" ∈ d.warnings ∧
      TransGen (Edge (Listing.view ∅) s) "/b.js" "/b.js" := by
  have hfound : (inlineRun askingIntoCycle).map (fun r => r.2.warnings) =
      some [.circularDependency "/b.js"] := by
    decide +kernel
  obtain ⟨⟨s, d⟩, hrun, hwarnings⟩ := Option.map_eq_some_iff.mp hfound
  obtain ⟨hs, hd⟩ := of_inlineRun hrun
  have hmem : .circularDependency "/b.js" ∈ d.warnings := hwarnings ▸ List.mem_singleton_self _
  exact ⟨s, d, hs, hd, hmem, ((circular_lies_on_cycle hs hd).1 _ hmem).2⟩

end DefineBundle.Discovery
