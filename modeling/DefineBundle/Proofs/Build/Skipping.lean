import DefineBundle.Build
import DefineBundle.Proofs.Fingerprint.Marker

/-!
# Skipped builds

A build that finds its modules and has a fingerprint of them either delivers their bundles or is
skipped, and it is skipped by the fingerprint on disk alone.
-/
namespace DefineBundle

/-- A build that came to an end without making anything. -/
def Finished.IsSkipped {σ : Type} (f : Finished σ) : Prop :=
  ∃ o, f.result = .ok o ∧ o.isSkipped = true

namespace Bundler

open DefineBundle.Discovery (run)
open DefineBundle.Fingerprint (previous? isStale)

variable {σ : Type} {fs : FileSystem σ} {b : Bundler} {files : σ} {d : Discovery}

theorem build_of_run_error {h : Halted Discovery}
    (hrun : run (fs.view files) b.settings .empty = .error h) (writes : Bool) :
    (b.build fs writes files).result = .error h.failure ∧
      (b.build fs writes files).files = files := by
  have hclear : b.cache.clear = .empty := rfl
  simp [build, hclear, hrun]

theorem build_of_run (hrun : run (fs.view files) b.settings .empty = .ok d) (writes : Bool) :
    (b.build fs writes files).result = (finish fs writes b files d).1 ∧
      (b.build fs writes files).files = (finish fs writes b files d).2.2 := by
  have hclear : b.cache.clear = .empty := rfl
  simp [build, hclear, hrun]

theorem build_bundler (fs : FileSystem σ) (b : Bundler) (writes : Bool) (files : σ) :
    (b.build fs writes files).bundler.settings = b.settings ∧
      (b.build fs writes files).bundler.tools = b.tools := by
  unfold build
  split <;> exact ⟨rfl, rfl⟩

theorem isSkipped_of_deliver {writes : Bool} {fingerprint : String} {o : Outcome}
    (h : (deliver fs writes b files d fingerprint).1 = .ok o) : o.isSkipped = false := by
  unfold deliver at h
  cases hg : Bundle.generate ⟨b.tools, b.settings, d.modules, fingerprint⟩ with
  | error e =>
      rw [hg] at h
      cases h
  | ok g =>
      rw [hg] at h
      dsimp only at h
      generalize (if writes = true then writeAll fs g.assets files else (.ok (), [], files)) =
        written at h
      obtain ⟨⟨e⟩ | ⟨⟨⟩⟩, _, _⟩ := written
      · cases h
      · cases h
        rfl

/-- Where there is no fingerprint, nothing is made. -/
theorem finish_of_make_error {e : Failure}
    (h : Fingerprint.make d.modules b.settings = .error e) (writes : Bool) :
    finish fs writes b files d = (.error e, [], files) := by
  unfold finish
  rw [h]

theorem finish_of_isStale {writes : Bool} (hlegible : b.settings.isLegible = true)
    (h : isStale (fs.view files) b.settings (Fingerprint.of d.modules b.settings) = true) :
    finish fs writes b files d =
      deliver fs writes b files d (Fingerprint.of d.modules b.settings) := by
  unfold finish
  rw [Fingerprint.make_of_isLegible hlegible]
  exact if_pos h

theorem finish_of_not_isStale (hlegible : b.settings.isLegible = true)
    (h : isStale (fs.view files) b.settings (Fingerprint.of d.modules b.settings) = false)
    (writes : Bool) :
    finish fs writes b files d = (.ok ⟨[], d.warnings, d.modules,
      Fingerprint.of d.modules b.settings, true, d.latest⟩,
      [⟨.info, "All outputs are up to date"⟩], files) := by
  unfold finish
  rw [Fingerprint.make_of_isLegible hlegible]
  exact if_neg (by simp [h])

/-- Only a build all of whose paths are texts comes to an end without a fault. -/
theorem isLegible_of_result {writes : Bool} {o : Outcome}
    (h : (b.build fs writes files).result = .ok o) : b.settings.isLegible = true := by
  cases hrun : run (fs.view files) b.settings .empty with
  | error e =>
      rw [(build_of_run_error hrun writes).1] at h
      cases h
  | ok d =>
      cases hmake : Fingerprint.make d.modules b.settings with
      | error e =>
          rw [(build_of_run hrun writes).1, finish_of_make_error hmake] at h
          cases h
      | ok fingerprint => exact (Fingerprint.make_eq_ok_iff.mp hmake).1

/-- A build is skipped exactly when the fingerprint on disk is that of what it finds. -/
theorem isSkipped_iff_of_run (hlegible : b.settings.isLegible = true)
    (hrun : run (fs.view files) b.settings .empty = .ok d)
    (hforce : b.settings.force = false) (writes : Bool) :
    (b.build fs writes files).IsSkipped ↔
      previous? (fs.view files) b.settings = some (Fingerprint.of d.modules b.settings) := by
  rw [← Fingerprint.isStale_eq_false_iff hforce]
  unfold Finished.IsSkipped
  rw [(build_of_run hrun writes).1]
  constructor
  · rintro ⟨o, ho, hskipped⟩
    by_contra hstale
    rw [Bool.not_eq_false] at hstale
    rw [finish_of_isStale hlegible hstale] at ho
    rw [isSkipped_of_deliver ho] at hskipped
    cases hskipped
  · intro hfresh
    rw [finish_of_not_isStale hlegible hfresh]
    exact ⟨_, rfl, rfl⟩

theorem build_of_not_isSkipped {writes : Bool} (hlegible : b.settings.isLegible = true)
    (hrun : run (fs.view files) b.settings .empty = .ok d)
    (h : ¬ (b.build fs writes files).IsSkipped) :
    (b.build fs writes files).result =
        (deliver fs writes b files d (Fingerprint.of d.modules b.settings)).1 ∧
      (b.build fs writes files).files =
        (deliver fs writes b files d (Fingerprint.of d.modules b.settings)).2.2 := by
  obtain ⟨hresult, hfiles⟩ := build_of_run hrun writes
  cases hstale : isStale (fs.view files) b.settings (Fingerprint.of d.modules b.settings) with
  | true =>
      rw [finish_of_isStale hlegible hstale] at hresult hfiles
      exact ⟨hresult, hfiles⟩
  | false =>
      rw [finish_of_not_isStale hlegible hstale] at hresult
      exact absurd ⟨_, hresult, rfl⟩ h

end Bundler

end DefineBundle
