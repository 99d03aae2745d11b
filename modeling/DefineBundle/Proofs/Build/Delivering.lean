import DefineBundle.Proofs.Build.Skipping
import DefineBundle.Proofs.Bundle.Making
import DefineBundle.Proofs.Files.Isolation

/-!
# What a successful build leaves

A build that comes to an end is either skipped, and then it leaves the files as they are, or it has
made all bundles, and then each of them is on disk where it belongs.
-/
namespace DefineBundle

/-- A bundle is on disk with exactly its text. -/
structure Asset.OnDisk (a : Asset) (view : FileView) : Prop where
  isFile : view.isFile a.path = true
  read : view.read a.path = .ok a.content

theorem Asset.OnDisk.congr {a : Asset} {view view' : FileView} (h : a.OnDisk view)
    (hsame : view.SameText view' a.path) : a.OnDisk view' :=
  ⟨hsame.isFile.trans h.isFile, (hsame.read h.isFile).trans h.read⟩

namespace Bundler

open DefineBundle.Discovery (run)
open DefineBundle.Fingerprint (previous? isStale)

variable {σ : Type} {fs : FileSystem σ} {b : Bundler} {files : σ} {d : Discovery}

theorem writeAll_cons_eq_ok {a : Asset} {as : List Asset}
    (h : (writeAll fs (a :: as) files).1 = .ok ()) :
    ∃ files', fs.write a.path a.content files = (.ok (), files') ∧
      (writeAll fs as files').1 = .ok () ∧
      (writeAll fs (a :: as) files).2.2 = (writeAll fs as files').2.2 := by
  simp only [writeAll] at h ⊢
  rcases hw : fs.write a.path a.content files with ⟨⟨e⟩ | ⟨⟨⟩⟩, files'⟩
  · rw [hw] at h
    cases h
  · rw [hw] at h
    exact ⟨files', rfl, h, rfl⟩

theorem sameText_of_writeAll_eq_ok {paths : List String} {start : σ}
    (hfs : fs.Separates paths start) (hat : fs.Wrote paths start files) {q : String}
    (hq : q ∈ paths) {as : List Asset} (has : ∀ a ∈ as, a.path ∈ paths ∧ q ≠ a.path)
    (h : (writeAll fs as files).1 = .ok ()) :
    (fs.view files).SameText (fs.view (writeAll fs as files).2.2) q := by
  induction as generalizing files with
  | nil => exact .refl _ _
  | cons a as ih =>
      obtain ⟨files', hw, hrest, hfiles⟩ := writeAll_cons_eq_ok h
      rw [List.forall_mem_cons] at has
      rw [hfiles]
      have hfirst := hfs.untouched hat has.1.1 hw q hq has.1.2
      exact hfirst.trans (ih (hat.write has.1.1 hw) has.2 hrest)

/-- Bundles that are all written are all there, for each is written at a path of its own. -/
theorem onDisk_of_writeAll_eq_ok {paths : List String} {start : σ}
    (hfs : fs.Separates paths start) (hat : fs.Wrote paths start files) {as : List Asset}
    (hn : (as.map Asset.path).Nodup) (has : ∀ a ∈ as, a.path ∈ paths)
    (h : (writeAll fs as files).1 = .ok ()) :
    ∀ a ∈ as, a.OnDisk (fs.view (writeAll fs as files).2.2) := by
  induction as generalizing files with
  | nil => exact fun a ha => absurd ha List.not_mem_nil
  | cons a as ih =>
      obtain ⟨files', hw, hrest, hfiles⟩ := writeAll_cons_eq_ok h
      rw [List.forall_mem_cons] at has
      rw [List.map_cons, List.nodup_cons] at hn
      rw [hfiles]
      have hat' := hat.write has.1 hw
      intro c hc
      rcases List.mem_cons.mp hc with rfl | hc
      · obtain ⟨hfile, hread⟩ := hfs.written hat has.1 hw
        refine Asset.OnDisk.congr ⟨hfile, hread⟩
          (sameText_of_writeAll_eq_ok hfs hat' has.1 ?_ hrest)
        intro e he
        exact ⟨has.2 e he, fun hp => hn.1 (hp ▸ List.mem_map_of_mem he)⟩
      · exact ih hat' hn.2 has.2 hrest c hc

section
variable {m : Bundle.Material}

theorem sublist_paths (m : Bundle.Material) (ts : List Target) :
    ((ts.filterMap (Bundle.asset? m)).map Asset.path).Sublist
      (ts.filterMap m.settings.outputs.path?) := by
  induction ts with
  | nil => exact .slnil
  | cons t ts ih =>
      cases ha : Bundle.asset? m t with
      | none =>
          rw [List.filterMap_cons_none ha]
          cases hp : m.settings.outputs.path? t with
          | none => rwa [List.filterMap_cons_none hp]
          | some path =>
              rw [List.filterMap_cons_some hp]
              exact ih.cons path
      | some a =>
          obtain ⟨-, hp⟩ := Bundle.asset?_eq_some ha
          rw [List.filterMap_cons_some ha, List.filterMap_cons_some hp, List.map_cons]
          exact ih.cons_cons a.path

/-- The paths of the bundles that are made are among those asked for. -/
theorem paths_of_generate {g : Bundle.Generation} (hg : Bundle.generate m = .ok g) :
    (g.assets.map Asset.path).Sublist m.settings.outputs.paths := by
  rw [Bundle.assets_of_generate hg]
  exact sublist_paths m Target.all

theorem path_mem_of_generate {g : Bundle.Generation} (hg : Bundle.generate m = .ok g) {a : Asset}
    (ha : a ∈ g.assets) : a.path ∈ m.settings.outputs.paths :=
  (paths_of_generate hg).subset (List.mem_map_of_mem ha)

theorem onDisk_of_generate (hfs : fs.Separates m.settings.outputs.paths files)
    (hn : m.settings.outputs.paths.Nodup) {g : Bundle.Generation}
    (hg : Bundle.generate m = .ok g) (h : (writeAll fs g.assets files).1 = .ok ()) :
    ∀ a ∈ g.assets, a.OnDisk (fs.view (writeAll fs g.assets files).2.2) := by
  exact onDisk_of_writeAll_eq_ok hfs .refl (hn.sublist (paths_of_generate hg))
    (fun a => path_mem_of_generate hg) h

/-- What a development bundle on disk says is the fingerprint that it was made with, if it was to
say it at all. -/
theorem previous?_of_onDisk {tools : Tools} {s : Settings} {ms : List ModuleRecord}
    {message : List UInt8} {g : Bundle.Generation} {view : FileView}
    (hg : Bundle.generate ⟨tools, s, ms, Sha256.hex message⟩ = .ok g)
    (h : ∀ a ∈ g.assets, a.OnDisk view) (hdev : s.outputs.development.isSome = true) :
    previous? view s = if s.hash then some (Sha256.hex message) else none := by
  obtain ⟨path, hp⟩ := Option.isSome_iff_exists.mp hdev
  obtain ⟨text, htext, hasset⟩ := Bundle.development_of_generate hg hp
  have hmem : ⟨.development, path, text⟩ ∈ g.assets := by
    rw [Bundle.assets_of_generate hg]
    exact List.mem_filterMap.mpr ⟨.development, by simp [Target.all], hasset⟩
  obtain ⟨hfile, hread⟩ := h _ hmem
  rw [Fingerprint.previous?_of_read hp hfile hread, Bundle.read?_development htext]
  split
  · exact congrArg some String.ofList_toList
  · rfl

end

theorem build_of_previous? (hlegible : b.settings.isLegible = true)
    (hrun : run (fs.view files) b.settings .empty = .ok d)
    (hforce : b.settings.force = false)
    (h : previous? (fs.view files) b.settings = some (Fingerprint.of d.modules b.settings))
    (writes : Bool) :
    (b.build fs writes files).result = .ok ⟨[], d.warnings, d.modules,
        Fingerprint.of d.modules b.settings, true, d.latest⟩ ∧
      (b.build fs writes files).files = files := by
  obtain ⟨hresult, hfiles⟩ := build_of_run hrun writes
  have hfresh := (Fingerprint.isStale_eq_false_iff hforce).mpr h
  rw [hresult, hfiles, finish_of_not_isStale hlegible hfresh]
  exact ⟨rfl, rfl⟩

/-- A skipped build finds its own fingerprint on disk. -/
theorem previous?_of_isSkipped (hrun : run (fs.view files) b.settings .empty = .ok d)
    {writes : Bool} (h : (b.build fs writes files).IsSkipped) :
    b.settings.force = false ∧
      previous? (fs.view files) b.settings = some (Fingerprint.of d.modules b.settings) := by
  obtain ⟨o, ho, hskipped⟩ := h
  have hlegible := isLegible_of_result ho
  have hforce : b.settings.force = false := by
    by_contra hforced
    rw [Bool.not_eq_false] at hforced
    have hstale : isStale (fs.view files) b.settings
        (Fingerprint.of d.modules b.settings) = true := by
      simp [isStale, hforced]
    rw [(build_of_run hrun writes).1, finish_of_isStale hlegible hstale] at ho
    rw [isSkipped_of_deliver ho] at hskipped
    cases hskipped
  exact ⟨hforce, (isSkipped_iff_of_run hlegible hrun hforce writes).mp ⟨o, ho, hskipped⟩⟩

/-- What a writing build that succeeds has done. -/
theorem build_eq_ok {out : Outcome} (h : (b.build fs true files).result = .ok out) :
    ∃ d, run (fs.view files) b.settings .empty = .ok d ∧ out.modules = d.modules ∧
      out.fingerprint = Fingerprint.of d.modules b.settings ∧
      (out.isSkipped = true ∧ b.settings.force = false ∧
          previous? (fs.view files) b.settings = some (Fingerprint.of d.modules b.settings) ∧
          (b.build fs true files).files = files ∨
        out.isSkipped = false ∧ ∃ g, Bundle.generate ⟨b.tools, b.settings, d.modules,
            Fingerprint.of d.modules b.settings⟩ = .ok g ∧ out.assets = g.assets ∧
          (writeAll fs g.assets files).1 = .ok () ∧
          (b.build fs true files).files = (writeAll fs g.assets files).2.2) := by
  have hlegible := isLegible_of_result h
  cases hrun : run (fs.view files) b.settings .empty with
  | error e =>
      rw [(build_of_run_error hrun true).1] at h
      cases h
  | ok d =>
      refine ⟨d, rfl, ?_⟩
      by_cases hskipped : (b.build fs true files).IsSkipped
      · obtain ⟨hforce, hprevious⟩ := previous?_of_isSkipped hrun hskipped
        obtain ⟨hresult, hfiles⟩ := build_of_previous? hlegible hrun hforce hprevious true
        rw [hresult] at h
        cases h
        exact ⟨rfl, rfl, .inl ⟨rfl, hforce, hprevious, hfiles⟩⟩
      · obtain ⟨hresult, hfiles⟩ := build_of_not_isSkipped hlegible hrun hskipped
        rw [hresult] at h
        unfold deliver at h hfiles
        cases hg : Bundle.generate ⟨b.tools, b.settings, d.modules,
            Fingerprint.of d.modules b.settings⟩ with
        | error e =>
            rw [hg] at h
            cases h
        | ok g =>
            rw [hg] at h hfiles
            simp only [if_true] at h hfiles
            cases hw : (writeAll fs g.assets files).1 with
            | error e =>
                rw [hw] at h
                cases h
            | ok u =>
                rw [hw] at h
                cases h
                exact ⟨rfl, rfl, .inr ⟨rfl, g, rfl, rfl, hw, hfiles⟩⟩

theorem build_of_writeAll_eq_ok {g : Bundle.Generation}
    (hlegible : b.settings.isLegible = true)
    (hrun : run (fs.view files) b.settings .empty = .ok d)
    (hold : previous? (fs.view files) b.settings ≠ some (Fingerprint.of d.modules b.settings))
    (hg : Bundle.generate ⟨b.tools, b.settings, d.modules,
      Fingerprint.of d.modules b.settings⟩ = .ok g)
    (hw : (writeAll fs g.assets files).1 = .ok ()) :
    (∃ out, (b.build fs true files).result = .ok out) ∧
      (b.build fs true files).files = (writeAll fs g.assets files).2.2 := by
  have hnot : ¬ (b.build fs true files).IsSkipped := fun h =>
    hold (previous?_of_isSkipped hrun h).2
  obtain ⟨hresult, hfiles⟩ := build_of_not_isSkipped hlegible hrun hnot
  unfold deliver at hresult hfiles
  rw [hg] at hresult hfiles
  simp only [if_true, hw] at hresult hfiles
  exact ⟨⟨_, hresult⟩, hfiles⟩

end Bundler

end DefineBundle
