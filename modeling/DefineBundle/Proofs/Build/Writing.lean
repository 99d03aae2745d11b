import DefineBundle.Build
import DefineBundle.Proofs.Bundle.Making
import DefineBundle.Proofs.Options.Settings

/-!
# Writing bundles

Bundles are written in the order of their targets, up to the first that is refused. So what a
failing build leaves at the path of the development bundle is known from the target that was
refused: what was there before, when an earlier bundle was refused; the new bundle, when a later one
was. This relies on a development bundle that has a file of its own.
-/
namespace DefineBundle.Bundler

variable {σ : Type} {fs : FileSystem σ}

/-- The target of the first bundle that cannot be written. -/
def firstRefused (fs : FileSystem σ) : List Asset → σ → Option Target
  | [], _ => none
  | a :: rest, files => match fs.write a.path a.content files with
    | (.error _, _) => some a.target
    | (.ok (), files) => firstRefused fs rest files

theorem writeAll_eq_ok_iff {as : List Asset} {files : σ} :
    (writeAll fs as files).1 = .ok () ↔ firstRefused fs as files = none := by
  induction as generalizing files with
  | nil => simp [writeAll, firstRefused]
  | cons a as ih =>
      unfold writeAll firstRefused
      rcases hw : fs.write a.path a.content files with ⟨⟨e⟩ | ⟨⟨⟩⟩, files'⟩
      · simp
      · simpa using ih

theorem firstRefused_append (as bs : List Asset) (files : σ) :
    firstRefused fs (as ++ bs) files =
      (firstRefused fs as files).or (firstRefused fs bs (writeAll fs as files).2.2) := by
  induction as generalizing files with
  | nil => rfl
  | cons a as ih =>
      simp only [List.cons_append, firstRefused, writeAll]
      rcases fs.write a.path a.content files with ⟨⟨e⟩ | ⟨⟨⟩⟩, files'⟩
      · rfl
      · exact ih files'

theorem writeAll_append_files (as bs : List Asset) (files : σ) :
    (writeAll fs (as ++ bs) files).2.2 = match firstRefused fs as files with
      | some _ => (writeAll fs as files).2.2
      | none => (writeAll fs bs (writeAll fs as files).2.2).2.2 := by
  induction as generalizing files with
  | nil => rfl
  | cons a as ih =>
      simp only [List.cons_append, firstRefused, writeAll]
      rcases fs.write a.path a.content files with ⟨⟨e⟩ | ⟨⟨⟩⟩, files'⟩
      · rfl
      · exact ih files'

theorem mem_of_firstRefused {as : List Asset} {files : σ} {t : Target}
    (h : firstRefused fs as files = some t) : ∃ a ∈ as, a.target = t := by
  induction as generalizing files with
  | nil => cases h
  | cons a as ih =>
      unfold firstRefused at h
      split at h
      · exact ⟨a, List.mem_cons_self, Option.some.inj h⟩
      · obtain ⟨b, hb, ht⟩ := ih h
        exact ⟨b, List.mem_cons_of_mem _ hb, ht⟩

theorem sameText_writeAll {path : String} {paths : List String} (hfs : fs.KeepsApart path paths)
    {as : List Asset} (has : ∀ a ∈ as, a.path ∈ paths ∧ a.path ≠ path) (files : σ) :
    (fs.view files).SameText (fs.view (writeAll fs as files).2.2) path := by
  induction as generalizing files with
  | nil => exact .refl _ _
  | cons a as ih =>
      obtain ⟨hmem, hne⟩ := has a List.mem_cons_self
      have hfirst := hfs.untouched a.path hmem hne a.content files
      unfold writeAll
      rcases hw : fs.write a.path a.content files with ⟨⟨e⟩ | ⟨⟨⟩⟩, files'⟩
      · rwa [hw] at hfirst
      · rw [hw] at hfirst
        exact hfirst.trans (ih (fun b hb => has b (List.mem_cons_of_mem _ hb)) files')

section
variable {m : Bundle.Material} {path : String}

theorem path_ne_of_mem_assets (hn : m.settings.outputs.paths.Nodup)
    (hp : m.settings.outputs.development = some path) (ts : List Target)
    (hts : Target.development ∉ ts) {a : Asset} (ha : a ∈ ts.filterMap (Bundle.asset? m)) :
    a.path ∈ m.settings.outputs.paths ∧ a.path ≠ path := by
  obtain ⟨t, ht, ha⟩ := List.mem_filterMap.mp ha
  obtain ⟨-, hpath⟩ := Bundle.asset?_eq_some ha
  have hne : t ≠ .development := fun he => hts (he ▸ ht)
  have hdev : m.settings.outputs.path? .development = some path := hp
  exact ⟨Outputs.mem_paths_iff.mpr ⟨t, hpath⟩, Outputs.path_ne_of_nodup hn hne hpath hdev⟩

theorem target_of_firstRefused {ts : List Target} {files : σ} {t : Target}
    (h : firstRefused fs (ts.filterMap (Bundle.asset? m)) files = some t) : t ∈ ts := by
  obtain ⟨a, ha, rfl⟩ := mem_of_firstRefused h
  obtain ⟨t, ht, ha⟩ := List.mem_filterMap.mp ha
  rwa [(Bundle.asset?_eq_some ha).1]

/-- What a failing build leaves where the development bundle belongs. -/
theorem left_behind {g : Bundle.Generation} {files : σ} {t : Target}
    (hg : Bundle.generate m = .ok g) (hn : m.settings.outputs.paths.Nodup)
    (hp : m.settings.outputs.development = some path)
    (hfs : fs.KeepsApart path m.settings.outputs.paths)
    (ht : firstRefused fs g.assets files = some t) :
    t = .development ∨
      (t = .source ∨ t = .minified) ∧
        (fs.view files).SameText (fs.view (writeAll fs g.assets files).2.2) path ∨
      t = .coverage ∧ ∃ text,
        Bundle.development m.settings m.modules m.fingerprint path = .ok text ∧
        (fs.view (writeAll fs g.assets files).2.2).isFile path = true ∧
        (fs.view (writeAll fs g.assets files).2.2).read path = .ok text := by
  obtain ⟨text, htext, hdev⟩ := Bundle.development_of_generate hg hp
  have hsplit : g.assets = [Target.source, .minified].filterMap (Bundle.asset? m) ++
      (⟨.development, path, text⟩ :: [Target.coverage].filterMap (Bundle.asset? m)) := by
    rw [Bundle.assets_of_generate hg, ← List.filterMap_cons_some hdev, ← List.filterMap_append]
    rfl
  have hfront := sameText_writeAll hfs
    (fun a ha => path_ne_of_mem_assets hn hp [.source, .minified] (by decide) ha) files
  rw [hsplit, firstRefused_append] at ht
  rw [hsplit, writeAll_append_files]
  cases hf : firstRefused fs ([Target.source, .minified].filterMap (Bundle.asset? m)) files with
  | some t' =>
      rw [hf] at ht
      obtain rfl : t' = t := Option.some.inj ht
      have hmem := target_of_firstRefused hf
      exact .inr (.inl ⟨by simpa using hmem, hfront⟩)
  | none =>
      rw [hf, Option.none_or] at ht
      dsimp only
      unfold firstRefused at ht
      unfold writeAll
      generalize (writeAll fs ([Target.source, .minified].filterMap (Bundle.asset? m)) files).2.2 =
        reached at ht ⊢
      rcases hw : fs.write path text reached with ⟨⟨e⟩ | ⟨⟨⟩⟩, files'⟩
      · rw [hw] at ht
        exact .inl (Option.some.inj ht).symm
      · rw [hw] at ht
        have hmem := target_of_firstRefused ht
        obtain ⟨hfile, hread⟩ := hfs.written text reached files' hw
        have hback := sameText_writeAll hfs
          (fun a ha => path_ne_of_mem_assets hn hp [.coverage] (by decide) ha) files'
        exact .inr (.inr ⟨by simpa using hmem, text, htext, hback.isFile.trans hfile,
          (hback.read hfile).trans hread⟩)

end

end DefineBundle.Bundler
