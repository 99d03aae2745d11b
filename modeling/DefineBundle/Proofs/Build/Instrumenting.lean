import DefineBundle.Proofs.Build.Effects

/-!
# Registering an instrumenter

The coverage bundle is made only where there is an instrumenter, but the fingerprint on disk covers
the modules and the settings alone. So a build that is given an instrumenter for the first time
makes the coverage bundle unless the builds before it have left a development bundle with a
fingerprint; then it takes the bundle for up to date although it was never made.
-/
namespace DefineBundle

/-- What is written at one of the paths is read back. -/
def FileSystem.ReadsBack {σ : Type} (fs : FileSystem σ) (paths : List String) (start : σ) : Prop :=
  ∀ {files files' : σ} {p text : String}, fs.Wrote paths start files → p ∈ paths →
    fs.write p text files = (.ok (), files') →
      (fs.view files').isFile p = true ∧ (fs.view files').read p = .ok text

theorem Disk.Stores.node?_ne_device {d d' : Disk} {path text : String} {l : Location}
    (h : d.Stores d' path text l) (hd : ∀ k v, d.node? k ≠ some (.device v)) (k : Location)
    (v : Device) : d'.node? k ≠ some (.device v) := by
  rcases h.kept k with he | ⟨-, hfile⟩ | ⟨-, hmade, -⟩
  · rw [node?_eq_of_entryAt? he]
    exact hd k v
  · simp [hfile]
  · rw [node?_of_entryAt? hmade]
    exact nofun

/-- On a disk without devices whatever is written is read back, through links or not. -/
theorem Disk.Rooted.readsBack {d : Disk} (hd : d.Rooted)
    (hfiles : ∀ k v, d.node? k ≠ some (.device v)) {paths : List String}
    (hpaths : ∀ p ∈ paths, Spells p) : fileSystem.ReadsBack paths d := by
  have hreached : ∀ {d' : Disk}, fileSystem.Wrote paths d d' →
      d'.Rooted ∧ ∀ k v, d'.node? k ≠ some (.device v) := by
    intro d' hat
    induction hat with
    | refl => exact ⟨hd, hfiles⟩
    | write _ hp hw ih =>
        obtain ⟨l, hstores⟩ := ih.1.writeText (hpaths _ hp) hw
        exact ⟨hstores.rooted, hstores.node?_ne_device ih.2⟩
  intro files files' p text hat hp hw
  obtain ⟨hrooted, hplain⟩ := hreached hat
  obtain ⟨l, hstores⟩ := hrooted.writeText (hpaths p hp) hw
  rcases hstores.stored with ⟨v, hdevice⟩ | hnames
  · exact absurd hdevice (hstores.node?_ne_device hplain l v)
  · have hfile := file?_eq_ok_iff.mpr ⟨l, hstores.find, hnames l (.refl _ l)⟩
    exact ⟨isFile_iff.mpr ⟨_, hfile⟩, read_of_file? hfile rfl⟩

namespace Bundle

theorem asset?_coverage_eq_none {m : Material} (h : m.tools.instrument = none) :
    asset? m .coverage = none := by
  unfold asset?
  cases m.settings.outputs.path? .coverage with
  | none => rfl
  | some path => simp [content, h]

/-- An instrumenter that refuses nothing stands in the way of no bundle. -/
theorem exists_generate_of_instrument {m : Material} {i : Instrumenter}
    (hi : ∀ path source, ∃ text, i path source = .ok text) (h : ∃ g, generate m = .ok g) :
    ∃ g, generate { m with tools := { m.tools with instrument := some i } } = .ok g := by
  rw [exists_generate_iff] at h ⊢
  intro t path hp
  cases t with
  | source => exact h .source path hp
  | minified => exact h .minified path hp
  | development => exact h .development path hp
  | coverage =>
      have hinstrumented : ∀ f, ∃ source, instrumented (some i) f = .ok source := fun f => by
        obtain ⟨text, htext⟩ := hi f.path f.source
        exact ⟨text, by simp [instrumented, htext]⟩
      obtain ⟨text, htext⟩ := exists_readable hinstrumented m.settings m.modules
      exact ⟨some text, by simp only [content, htext]; rfl⟩

end Bundle

namespace Bundler

open DefineBundle.Discovery (run Unmatched)
open DefineBundle.Fingerprint (previous?)

variable {σ : Type} {fs : FileSystem σ} {b b' : Bundler} {files : σ}

theorem exists_last_write {paths : List String} {start : σ} {as : List Asset} {a : Asset}
    (hat : fs.Wrote paths start files) (has : ∀ c ∈ as, c.path ∈ paths)
    (h : (writeAll fs (as ++ [a]) files).1 = .ok ()) :
    ∃ reached, fs.Wrote paths start reached ∧
      fs.write a.path a.content reached = (.ok (), (writeAll fs (as ++ [a]) files).2.2) := by
  induction as generalizing files with
  | nil =>
      obtain ⟨files', hw, -, hfiles⟩ := writeAll_cons_eq_ok h
      exact ⟨files, hat, hw.trans (congrArg (Prod.mk _) hfiles.symm)⟩
  | cons c as ih =>
      rw [List.cons_append] at h ⊢
      obtain ⟨files', hw, hrest, hfiles⟩ := writeAll_cons_eq_ok h
      rw [List.forall_mem_cons] at has
      rw [hfiles]
      exact ih (hat.write has.1 hw) has.2 hrest

/-- The development bundle is the last one that is written without an instrumenter. So its
fingerprint is on disk, whatever other bundles have gone there. -/
theorem previous?_of_uninstrumented {m : Bundle.Material} {message : List UInt8}
    {g : Bundle.Generation} (hback : fs.ReadsBack m.settings.outputs.paths files)
    (hnone : m.tools.instrument = none) (hfingerprint : m.fingerprint = Sha256.hex message)
    (hg : Bundle.generate m = .ok g) (hw : (writeAll fs g.assets files).1 = .ok ()) :
    previous? (fs.view (writeAll fs g.assets files).2.2) m.settings =
      if m.settings.outputs.development.isSome ∧ m.settings.hash then some m.fingerprint
      else none := by
  cases hp : m.settings.outputs.development with
  | none => simp [previous?, hp]
  | some path =>
      obtain ⟨text, htext, hdev⟩ := Bundle.development_of_generate hg hp
      have hsplit : g.assets = [Target.source, .minified].filterMap (Bundle.asset? m) ++
          [⟨.development, path, text⟩] := by
        have hcoverage := Bundle.asset?_coverage_eq_none hnone
        have hlast : [Target.development, .coverage].filterMap (Bundle.asset? m) =
            [⟨.development, path, text⟩] := by
          simp [hdev, hcoverage]
        rw [Bundle.assets_of_generate hg, ← hlast, ← List.filterMap_append]
        rfl
      have hpaths : ∀ a ∈ g.assets, a.path ∈ m.settings.outputs.paths := fun a =>
        path_mem_of_generate hg
      rw [hsplit] at hw hpaths ⊢
      obtain ⟨reached, hat, hlast⟩ := exists_last_write .refl
        (fun c hc => hpaths c (List.mem_append_left _ hc)) hw
      obtain ⟨hfile, hread⟩ := hback hat (hpaths _ (by simp)) hlast
      rw [hfingerprint] at htext ⊢
      rw [Fingerprint.previous?_of_read hp hfile hread, Bundle.read?_development htext]
      cases m.settings.hash <;> simp

/-- A build that is not skipped has made the coverage bundle. -/
theorem coverage_mem_assets {out : Outcome} {i : Instrumenter} {path : String}
    (hcoverage : b.settings.outputs.coverage = some path) (hi : b.tools.instrument = some i)
    (h : (b.build fs true files).result = .ok out) (hnot : out.isSkipped = false) :
    ∃ text, ⟨.coverage, path, text⟩ ∈ out.assets ∧
      Bundle.readable (some i) b.settings out.modules = .ok text := by
  obtain ⟨d, -, hmodules, -, hend⟩ := build_eq_ok h
  rcases hend with ⟨hskipped, -⟩ | ⟨-, g, hg, hassets, -⟩
  · rw [hnot] at hskipped
    cases hskipped
  · have hcontent : Bundle.content ⟨b.tools, b.settings, d.modules,
        Fingerprint.of d.modules b.settings⟩ path .coverage =
          some <$> Bundle.readable (some i) b.settings d.modules := by
      simp only [Bundle.content, hi]
    obtain ⟨text, htext, hasset⟩ := Bundle.asset?_of_generate (t := .coverage) hg hcoverage
      fun hleft => by
        rw [hcontent] at hleft
        obtain ⟨text, -, he⟩ := exists_of_map_eq_ok hleft
        cases he
    refine ⟨text, ?_, ?_⟩
    · rw [hassets, Bundle.assets_of_generate hg]
      exact List.mem_filterMap.mpr ⟨.coverage, by simp [Target.all], hasset⟩
    · rw [hcontent] at htext
      obtain ⟨made, hmade, he⟩ := exists_of_map_eq_ok htext
      rw [hmodules, hmade, Option.some.inj he]

section
variable {out : Outcome} (hnone : b.tools.instrument = none)
  (hback : fs.ReadsBack b.settings.outputs.paths files)
  (h : (b.build fs true files).result = .ok out)
include hnone hback h

/-- What is known of the fingerprint on disk after a build without an instrumenter. -/
theorem previous?_after_uninstrumented : ∃ d, run (fs.view files) b.settings .empty = .ok d ∧
    (out.isSkipped = true ∧ (b.build fs true files).files = files ∧
        previous? (fs.view files) b.settings = some (Fingerprint.of d.modules b.settings) ∨
      out.isSkipped = false ∧ (∃ g, Bundle.generate ⟨b.tools, b.settings, d.modules,
          Fingerprint.of d.modules b.settings⟩ = .ok g ∧ (writeAll fs g.assets files).1 = .ok () ∧
          (b.build fs true files).files = (writeAll fs g.assets files).2.2) ∧
        previous? (fs.view (b.build fs true files).files) b.settings =
          if b.settings.outputs.development.isSome ∧ b.settings.hash then
            some (Fingerprint.of d.modules b.settings) else none) := by
  obtain ⟨d, hrun, -, -, hend⟩ := build_eq_ok h
  refine ⟨d, hrun, ?_⟩
  rcases hend with ⟨hskipped, -, hprevious, hfiles⟩ | ⟨hnot, g, hg, -, hw, hfiles⟩
  · exact .inl ⟨hskipped, hfiles, hprevious⟩
  · refine .inr ⟨hnot, ⟨g, hg, hw, hfiles⟩, ?_⟩
    rw [hfiles]
    exact previous?_of_uninstrumented
      (m := ⟨b.tools, b.settings, d.modules, Fingerprint.of d.modules b.settings⟩)
      hback hnone rfl hg hw

/-- Only a fingerprint on disk can keep a build from making the bundles anew. -/
theorem development_of_isSkipped (hsettings : b'.settings = b.settings)
    (hskipped : (b'.build fs true (b.build fs true files).files).IsSkipped) :
    b.settings.outputs.development.isSome = true ∧
      (b.settings.hash = true ∨ out.isSkipped = true) := by
  obtain ⟨out', hout', -⟩ := id hskipped
  obtain ⟨d', hrun', -⟩ := build_eq_ok hout'
  obtain ⟨-, hprevious'⟩ := previous?_of_isSkipped hrun' hskipped
  rw [hsettings] at hprevious'
  have hdev : b.settings.outputs.development.isSome = true := by
    by_contra hno
    have hmissing : b.settings.outputs.development = none := by simpa using hno
    simp [previous?, hmissing] at hprevious'
  refine ⟨hdev, ?_⟩
  obtain ⟨d, -, hend⟩ := previous?_after_uninstrumented hnone hback h
  rcases hend with ⟨hfirst, -⟩ | ⟨-, -, hprevious⟩
  · exact .inr hfirst
  · rw [hprevious] at hprevious'
    split at hprevious'
    · rename_i hboth
      exact .inl hboth.2
    · cases hprevious'

/-- After a write without an instrumenter, a write that has one makes the coverage bundle unless it
is skipped. It is skipped only if there is a development bundle, and hashes are on or the first
write was skipped already; and where outputs are files of their own and no inputs, it always is
then. There the write fails only if the instrumenter refuses a source or a bundle cannot be written.
-/
theorem coverage_after_instrumenter {o : Options} {current path : String} {i : Instrumenter}
    (hs : o.settings current = .ok b.settings) (hforce : b.settings.force = false)
    (hcoverage : b.settings.outputs.coverage = some path)
    (hsettings : b'.settings = b.settings)
    (htools : b'.tools = { b.tools with instrument := some i }) :
    (∀ out', (b'.build fs true (b.build fs true files).files).result = .ok out' →
      out'.isSkipped = false → ∃ text, ⟨.coverage, path, text⟩ ∈ out'.assets ∧
        Bundle.readable (some i) b.settings out'.modules = .ok text) ∧
    ((b'.build fs true (b.build fs true files).files).IsSkipped →
      b.settings.outputs.development.isSome = true ∧
        (b.settings.hash = true ∨ out.isSkipped = true)) ∧
    ((∀ d, run (fs.view files) b.settings .empty = .ok d →
        fs.Isolates b.settings d.visited files ∧
          ∀ p ∈ b.settings.outputs.paths, Unmatched b.settings p ∧ p ∉ d.visited) →
      ((b'.build fs true (b.build fs true files).files).IsSkipped ↔
        b.settings.outputs.development.isSome = true ∧
          (b.settings.hash = true ∨ out.isSkipped = true)) ∧
      ∀ e, (b'.build fs true (b.build fs true files).files).result = .error e →
        (∃ file source reason, i file source = .error reason) ∨
        ∃ d g, run (fs.view (b.build fs true files).files) b.settings .empty = .ok d ∧
          Bundle.generate ⟨b'.tools, b.settings, d.modules,
            Fingerprint.of d.modules b.settings⟩ = .ok g ∧
          (writeAll fs g.assets (b.build fs true files).files).1 ≠ .ok ()) := by
  have hlegible := Options.isLegible_of_settings hs
  have honly := development_of_isSkipped hnone hback h hsettings
  refine ⟨fun out' hout' hnot => ?_, honly, fun halone => ?_⟩
  · have hi : b'.tools.instrument = some i := by rw [htools]
    rw [← hsettings]
    exact coverage_mem_assets (by rw [hsettings, hcoverage]) hi hout' hnot
  obtain ⟨d, hrun, hend⟩ := previous?_after_uninstrumented hnone hback h
  obtain ⟨hfs, houtputs⟩ := halone d hrun
  have hagain := run_after_build hs hrun hfs (fun p hp => (houtputs p hp).1)
    (fun p hp => (houtputs p hp).2) h
  have hiff : (b'.build fs true (b.build fs true files).files).IsSkipped ↔
      previous? (fs.view (b.build fs true files).files) b.settings =
        some (Fingerprint.of d.modules b.settings) := by
    rw [← hsettings] at hlegible hagain hforce ⊢
    exact isSkipped_iff_of_run hlegible hagain hforce true
  refine ⟨⟨honly, fun hboth => ?_⟩, fun e he => ?_⟩
  · rw [hiff]
    rcases hend with ⟨-, hfiles, hprevious⟩ | ⟨hnot, -, hprevious⟩
    · rw [hfiles, hprevious]
    · have hhash : b.settings.hash = true := hboth.2.resolve_right (by simp [hnot])
      rw [hprevious, if_pos ⟨hboth.1, hhash⟩]
  · by_cases hi : ∃ file source reason, i file source = .error reason
    · exact .inl hi
    have htotal : ∀ file source, ∃ text, i file source = .ok text := by
      intro file source
      cases hcase : i file source with
      | ok text => exact ⟨text, rfl⟩
      | error reason => exact absurd ⟨file, source, reason, hcase⟩ hi
    have hnot : ¬ (b'.build fs true (b.build fs true files).files).IsSkipped := by
      rintro ⟨out', hout', -⟩
      rw [he] at hout'
      cases hout'
    rcases hend with ⟨-, hfiles, hprevious⟩ | ⟨-, ⟨g, hg, -⟩, -⟩
    · exact absurd (hiff.mpr (by rw [hfiles, hprevious])) hnot
    · obtain ⟨g', hg'⟩ := Bundle.exists_generate_of_instrument htotal ⟨g, hg⟩
      rw [← htools] at hg'
      refine .inr ⟨d, g', hagain, hg', fun hw => ?_⟩
      have hold := mt hiff.mpr hnot
      rw [← hsettings] at hlegible hagain hg' hold
      obtain ⟨⟨out', hout'⟩, -⟩ := build_of_writeAll_eq_ok hlegible hagain hold hg' hw
      rw [he] at hout'
      cases hout'

end

/-- A coverage bundle alone, of one module that comes with the options. -/
def coverageOnly : Options :=
  { Discovery.inlineOptions ["a.js"] [("a.js", "define('a', [], () => 0)")] with
    outputs := { Outputs.empty with coverage := some "a.cov.js" } }

theorem coverageOnly_settings : ∃ s d, coverageOnly.settings "/" = .ok s ∧ s.force = false ∧
    s.hash = true ∧ s.input = ["/a.js"] ∧ s.outputs = ⟨none, none, none, some "/a.cov.js"⟩ ∧
    run (Listing.view ∅) s .empty = .ok d ∧ d.visited = ["/a.js"] :=
  Discovery.exists_of_inlineRun (by decide +kernel)

theorem writeAll_blank {as : List Asset} (has : (as.map Asset.path).Sublist ["/a.cov.js"]) :
    (writeAll Disk.fileSystem as Disk.blank).1 = .ok () := by
  cases as with
  | nil => rfl
  | cons a as =>
      obtain ⟨hpath, hrest⟩ : a.path = "/a.cov.js" ∧ as = [] := by
        simpa [List.sublist_singleton] using has
      have hwrite : Disk.writeText "/a.cov.js" a.content Disk.blank = _ :=
        writeText_blank "a.cov.js" (by simp) a.content
      simp [hrest, writeAll, Disk.fileSystem, hpath, hwrite]

/-- Without a development bundle, the second write makes the coverage bundle. -/
theorem coverage_after_instrumenter_alone : ∃ b b' out out' text,
    ofOptions "/" Tools.standard coverageOnly = .ok b ∧
    ofOptions "/" coveringTools coverageOnly = .ok b' ∧
    (b.build Disk.fileSystem true Disk.blank).result = .ok out ∧
    (b'.build Disk.fileSystem true (b.build Disk.fileSystem true Disk.blank).files).result =
      .ok out' ∧
    out'.isSkipped = false ∧ ⟨.coverage, "/a.cov.js", text⟩ ∈ out'.assets := by
  obtain ⟨s, d, hs, hforce, -, hinput, houtputs, hrun, hvisited⟩ := coverageOnly_settings
  have hblank := run_of_missing (Disk.bare_blank.isFile_eq_false "/a.js") hs hinput hrun hvisited
  have hpaths : s.outputs.paths = ["/a.cov.js"] := by
    rw [houtputs]
    rfl
  -- the first write has nothing to make
  obtain ⟨g, hg⟩ := Bundle.exists_generate_of_instrumented
    (m := ⟨Tools.standard, s, d.modules, Fingerprint.of d.modules s⟩) (by rw [houtputs])
    fun i hi => by cases hi
  have hw := writeAll_blank (hpaths ▸ paths_of_generate hg)
  obtain ⟨⟨out, hout⟩, hfiles⟩ :=
    build_of_bare (b := ⟨s, Tools.standard, .empty⟩) (Options.isLegible_of_settings hs)
      Disk.bare_blank hblank hg hw
  have hassets : g.assets = [] := by
    have hnone : ∀ t, t ≠ .coverage → s.outputs.path? t = none := fun t ht => by
      rw [houtputs]
      cases t <;> first | rfl | exact absurd rfl ht
    rw [Bundle.assets_of_generate hg]
    refine List.filterMap_eq_nil_iff.mpr fun t _ => ?_
    by_cases ht : t = .coverage
    · rw [ht]
      exact Bundle.asset?_coverage_eq_none rfl
    · exact Bundle.asset?_eq_none _ (hnone t ht)
  rw [hassets] at hfiles
  replace hfiles : (build Disk.fileSystem true ⟨s, Tools.standard, .empty⟩ Disk.blank).files =
      Disk.blank := hfiles
  obtain ⟨hspelled, hinputs⟩ := Disk.spells_of_settings hs (by decide)
  have hunvisited : ∀ p ∈ s.outputs.paths, p ∉ ["/a.js"] := by
    rw [hpaths]
    decide
  have hcoverage : s.outputs.coverage = some "/a.cov.js" := by rw [houtputs]
  have hsettings : (⟨s, coveringTools, .empty⟩ : Bundler).settings =
    (⟨s, Tools.standard, .empty⟩ : Bundler).settings := rfl
  obtain ⟨hmakes, -, halone⟩ := coverage_after_instrumenter (b := ⟨s, Tools.standard, .empty⟩) rfl
    (Disk.isTree_blank.rooted.readsBack Disk.isTree_blank.node?_ne_device hspelled) hout hs hforce
    hcoverage hsettings rfl
  obtain ⟨hiff, hfails⟩ := halone fun d' hd' => by
    obtain rfl : d = d' := Except.ok.inj (hblank.symm.trans hd')
    rw [hvisited]
    refine ⟨Disk.isTree_blank.isolates hspelled (fun q hq => hinputs q (by rwa [hinput])) hinputs,
      fun p hp => ⟨covering_unmatched hinput p, hunvisited p hp⟩⟩
  cases hsecond : (build Disk.fileSystem true ⟨s, coveringTools, .empty⟩
      (build Disk.fileSystem true ⟨s, Tools.standard, .empty⟩ Disk.blank).files).result with
  | error e =>
      rcases hfails e hsecond with ⟨file, source, reason, hrefused⟩ | ⟨d', g', -, hg', hnot⟩
      · cases hrefused
      · rw [hfiles] at hnot
        exact absurd (writeAll_blank (hpaths ▸ paths_of_generate hg')) hnot
  | ok out' =>
      have hnot : out'.isSkipped = false := by
        rw [← Bool.not_eq_true]
        intro hskipped
        obtain ⟨hdev, -⟩ := hiff.mp ⟨out', hsecond, hskipped⟩
        rw [houtputs] at hdev
        cases hdev
      obtain ⟨text, hmem, -⟩ := hmakes out' hsecond hnot
      exact ⟨⟨s, Tools.standard, .empty⟩, ⟨s, coveringTools, .empty⟩, out, out', text,
        by rw [ofOptions, hs], by rw [ofOptions, hs], hout, hsecond, hnot, hmem⟩

/-- With a development bundle, the second write is skipped, and the coverage bundle is never made.
-/
theorem isSkipped_after_instrumenter : ∃ b b' out out',
    ofOptions "/" Tools.standard covering = .ok b ∧
    ofOptions "/" coveringTools covering = .ok b' ∧
    b.settings.outputs.coverage = some "/a.cov.js" ∧ b.settings.force = false ∧
    b.tools.instrument.isSome = false ∧ b'.tools.instrument.isSome = true ∧
    (b.build Disk.fileSystem true Disk.blank).result = .ok out ∧
    (b'.build Disk.fileSystem true (b.build Disk.fileSystem true Disk.blank).files).result =
      .ok out' ∧
    out'.isSkipped = true ∧ out'.assets = [] := by
  obtain ⟨s, d, hs, hforce, hhash, hinput, houtputs, hrun, hvisited⟩ := covering_settings
  have hblank := run_of_missing (Disk.bare_blank.isFile_eq_false "/a.js") hs hinput hrun hvisited
  obtain ⟨g, hg⟩ := Bundle.exists_generate_of_instrumented
    (m := ⟨Tools.standard, s, d.modules, Fingerprint.of d.modules s⟩) (by rw [houtputs])
    fun i hi => by cases hi
  obtain ⟨text, -, hdev⟩ := Bundle.development_of_generate hg (by rw [houtputs])
  have hassets : g.assets = [⟨.development, "/a.dev.js", text⟩] := by
    have hsource := Bundle.asset?_eq_none
      ⟨Tools.standard, s, d.modules, Fingerprint.of d.modules s⟩ (t := .source)
      (by rw [houtputs]; rfl)
    have hminified := Bundle.asset?_eq_none
      ⟨Tools.standard, s, d.modules, Fingerprint.of d.modules s⟩ (t := .minified)
      (by rw [houtputs]; rfl)
    have hcoverage := Bundle.asset?_coverage_eq_none
      (m := ⟨Tools.standard, s, d.modules, Fingerprint.of d.modules s⟩) rfl
    rw [Bundle.assets_of_generate hg]
    simp [Target.all, hsource, hminified, hdev, hcoverage]
  have hwrite : Disk.writeText "/a.dev.js" text Disk.blank = _ :=
    writeText_blank "a.dev.js" (by simp) text
  have hw : (writeAll Disk.fileSystem g.assets Disk.blank).1 = .ok () := by
    simp [hassets, writeAll, Disk.fileSystem, hwrite]
  obtain ⟨⟨out, hout⟩, -⟩ :=
    build_of_bare (b := ⟨s, Tools.standard, .empty⟩) (Options.isLegible_of_settings hs)
      Disk.bare_blank hblank hg hw
  obtain ⟨hrun', hprevious⟩ := upToDate_after_build_of_isTree
    (b := ⟨s, Tools.standard, .empty⟩) Disk.isTree_blank hs (by decide) (by rw [houtputs]; rfl)
    hhash hblank (by rw [hvisited]; decide) (fun p _ => covering_unmatched hinput p)
    (by rw [houtputs, hvisited]; decide) hout
  have hskips : ∃ out', (build Disk.fileSystem true ⟨s, coveringTools, .empty⟩
      (build Disk.fileSystem true ⟨s, Tools.standard, .empty⟩ Disk.blank).files).result =
        .ok out' ∧ out'.isSkipped = true ∧ out'.assets = [] :=
    ⟨_, (build_of_previous? (b := ⟨s, coveringTools, .empty⟩) (Options.isLegible_of_settings hs)
      hrun' hforce hprevious true).1, rfl, rfl⟩
  obtain ⟨out', hresult, hskipped, hempty⟩ := hskips
  exact ⟨⟨s, Tools.standard, .empty⟩, ⟨s, coveringTools, .empty⟩, out, out',
    by rw [ofOptions, hs], by rw [ofOptions, hs], by rw [houtputs], hforce, rfl, rfl, hout, hresult,
    hskipped, hempty⟩

end Bundler

end DefineBundle
