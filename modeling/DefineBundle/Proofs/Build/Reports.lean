import DefineBundle.Build

/-!
# What a build tells

Every step of a build reports what it does, what it finds and what is odd about it, but only the end
of a failing build is reported as fatal. So the report of a build tells by its last message whether
the build has failed, and no other message of it is fatal.
-/
namespace DefineBundle

/-- No message of a report says that a build has failed. -/
def Calm (log : List Message) : Prop :=
  ∀ m ∈ log, m.level ≠ .fatal

namespace Calm

variable {log log' : List Message} {m : Message}

theorem nil : Calm [] :=
  fun _ hm => absurd hm List.not_mem_nil

theorem append (h : Calm log) (h' : Calm log') : Calm (log ++ log') :=
  List.forall_mem_append.mpr ⟨h, h'⟩

theorem cons (hm : m.level ≠ .fatal) (h : Calm log) : Calm (m :: log) :=
  List.forall_mem_cons.mpr ⟨hm, h⟩

theorem concat (h : Calm log) (hm : m.level ≠ .fatal) : Calm (log ++ [m]) :=
  h.append (.cons hm .nil)

end Calm

/-- The state after something is calm, whether it succeeds with the state in its result or stops. -/
def KeepsCalm {σ α : Type} (log : σ → List Message) (state : α → σ) :
    Except (Halted σ) α → Prop
  | .ok a => Calm (log (state a))
  | .error h => Calm (log h.state)

section
variable {σ α β : Type} {log : σ → List Message} {state : α → σ} {state' : β → σ}

theorem KeepsCalm.bind {x : Except (Halted σ) α} {f : α → Except (Halted σ) β}
    (hx : KeepsCalm log state x) (hf : ∀ a, Calm (log (state a)) → KeepsCalm log state' (f a)) :
    KeepsCalm log state' (x >>= f) := by
  cases x with
  | error h => exact hx
  | ok a => exact hf a hx

theorem KeepsCalm.foldlM {f : σ → β → Except (Halted σ) σ}
    (hf : ∀ d b, Calm (log d) → KeepsCalm log id (f d b)) (bs : List β) {d : σ}
    (hd : Calm (log d)) : KeepsCalm log id (bs.foldlM f d) := by
  induction bs generalizing d with
  | nil => exact hd
  | cons b bs ih =>
      rw [List.foldlM_cons]
      exact (hf d b hd).bind fun d' hd' => ih hd'

end

namespace Discovery

open DefineBundle.Script (Declaration)

variable {view : FileView} {s : Settings} {d : Discovery}

/-- A discovery that keeps its report calm. -/
abbrev Quiet : Except (Halted Discovery) Discovery → Prop :=
  KeepsCalm log id

theorem calm_warn (h : Calm d.log) (w : Warning) : Calm (d.warn w).log :=
  h.concat nofun

theorem calm_record (h : Calm d.log) (m : ModuleRecord) : Calm (d.record m).log := by
  unfold record
  split
  · split
    · exact h
    · exact calm_warn h _
  · exact h

theorem calm_checkArity (h : Calm d.log) (o : Origin) (m : Declaration) :
    Calm (checkArity o m d).log := by
  unfold checkArity
  split
  · exact h
  · exact calm_warn h _

theorem keepsCalm_fetch (h : Calm d.log) (path : String) (referrer : Option String) :
    KeepsCalm log Prod.snd (fetch view s path referrer d) := by
  unfold fetch
  split
  · exact h
  · exact h
  · exact h.concat nofun

theorem quiet_visitDependency {load : Loader} (hload : ∀ p r d, Calm d.log → Quiet (load p r d))
    (h : Calm d.log) (path id dep : String) : Quiet (visitDependency load s path id d dep) := by
  unfold visitDependency
  split
  · exact h
  · split
    · split
      · exact h
      · exact calm_warn h _
    · exact hload _ _ d h

theorem quiet_visitDeclaration {load : Loader} (hload : ∀ p r d, Calm d.log → Quiet (load p r d))
    (h : Calm d.log) (o : Origin) (m : Declaration) : Quiet (visitDeclaration load s o d m) := by
  have hdeps : Quiet (m.deps.foldlM (visitDependency load s o.path m.id) (checkArity o m d)) :=
    .foldlM (fun _ dep hd => quiet_visitDependency hload hd _ _ dep) _ (calm_checkArity h o m)
  exact hdeps.bind fun d' hd' => calm_record hd' _

theorem quiet_visitSource {load : Loader} (hload : ∀ p r d, Calm d.log → Quiet (load p r d))
    (h : Calm d.log) (path : String) (t : SourceText) : Quiet (visitSource load s path t d) := by
  unfold visitSource
  dsimp only
  split
  · exact h
  · rename_i ms _
    have hms : Quiet (ms.foldlM (visitDeclaration load s (originOf s path t)) d) :=
      .foldlM (fun _ m hd => quiet_visitDeclaration hload hd _ m) _ h
    exact hms.bind fun d' hd' => hd'

theorem quiet_loadFile (n : Nat) (path : String) (referrer : Option String) (d : Discovery)
    (h : Calm d.log) : Quiet (loadFile view s n path referrer d) := by
  induction n generalizing path referrer d with
  | zero =>
      unfold loadFile
      split
      · exact h
      · exact h
  | succ n ih =>
      unfold loadFile
      split
      · exact h
      · exact (keepsCalm_fetch (d := d.enter path) h path referrer).bind fun found hfound =>
          quiet_visitSource ih hfound path found.1

theorem keepsCalm_expand (h : Calm d.log) (input : String) :
    KeepsCalm log Prod.snd (expand view d input) := by
  unfold expand
  split
  · dsimp only
    split
    · exact h
    · split
      · exact h.concat nofun
      · exact h
  · exact h

theorem keepsCalm_expandAll (inputs : List String) (h : Calm d.log) :
    KeepsCalm log Prod.snd (expandAll view inputs d) := by
  induction inputs generalizing d with
  | nil => exact h
  | cons input inputs ih =>
      exact (keepsCalm_expand h input).bind fun found hfound =>
        (ih hfound).bind fun rest hrest => hrest

theorem quiet_run (view : FileView) (s : Settings) (cache : FileCache) :
    Quiet (run view s cache) := by
  refine (keepsCalm_expandAll (d := start cache) s.input .nil).bind fun found hfound => ?_
  have hloaded : Quiet (found.1.foldlM (fun d path => loadFile view s (depth view s) path none d)
      found.2) :=
    .foldlM (fun d path hd => quiet_loadFile _ path none d hd) _ hfound
  refine hloaded.bind fun d hd => ?_
  split
  · exact hd
  · exact hd

end Discovery

/-- The making of bundles, successful or not, reports nothing fatal. -/
theorem Bundle.keepsCalm_generate (m : Material) :
    KeepsCalm Generation.log id (generate m) := by
  refine .foldlM (fun g t hg => ?_) _ .nil
  unfold Generation.step
  split
  · exact hg
  · split
    · exact hg
    · exact hg.concat nofun
    · exact hg.concat nofun

namespace Bundler

variable {σ : Type}

theorem calm_writeAll (fs : FileSystem σ) (as : List Asset) (files : σ) :
    Calm (writeAll fs as files).2.1 := by
  induction as generalizing files with
  | nil => exact .nil
  | cons a as ih =>
      unfold writeAll
      split
      · exact .nil
      · exact .cons nofun (ih _)

theorem calm_announce (s : Settings) (d : Discovery) : Calm (announce s d) := by
  unfold announce
  split
  · exact .cons nofun .nil
  · exact .cons nofun (.cons nofun .nil)

theorem calm_deliver (fs : FileSystem σ) (writes : Bool) (b : Bundler) (files : σ)
    (d : Discovery) (fingerprint : String) :
    Calm (deliver fs writes b files d fingerprint).2.1 := by
  have hmade := Bundle.keepsCalm_generate ⟨b.tools, b.settings, d.modules, fingerprint⟩
  unfold deliver
  cases hg : Bundle.generate ⟨b.tools, b.settings, d.modules, fingerprint⟩ with
  | error h =>
      rw [hg] at hmade
      exact hmade
  | ok g =>
      rw [hg] at hmade
      cases writes with
      | false => exact hmade.append .nil
      | true => exact hmade.append (calm_writeAll fs g.assets files)

/-- The report of a build ends with its failure, if it has failed, and says nothing else that is
fatal. -/
theorem log_of_build (fs : FileSystem σ) (writes : Bool) (b : Bundler) (files : σ) :
    ∃ front, Calm front ∧
      (b.build fs writes files).log = front ++ lastWords (b.build fs writes files).result := by
  have hquiet := Discovery.quiet_run (fs.view files) b.settings b.cache.clear
  unfold build
  cases hrun : Discovery.run (fs.view files) b.settings b.cache.clear with
  | error h =>
      rw [hrun] at hquiet
      exact ⟨_, hquiet, rfl⟩
  | ok d =>
      rw [hrun] at hquiet
      refine ⟨_, ?_, rfl⟩
      refine (hquiet.append (calm_announce b.settings d)).append ?_
      unfold finish
      cases Fingerprint.make d.modules b.settings with
      | error e => exact .nil
      | ok fingerprint =>
          dsimp only
          split
          · exact calm_deliver fs writes b files d fingerprint
          · exact .cons nofun .nil

end Bundler

end DefineBundle
