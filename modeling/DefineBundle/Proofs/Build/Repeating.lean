import DefineBundle.Proofs.Build.Delivering
import DefineBundle.Proofs.Build.Retry
import DefineBundle.Proofs.Files.Links
import DefineBundle.Proofs.Files.Walks

/-!
# Building twice

A build that has written its bundles is up to date: the next one finds the same modules, because
what was written is none of their files and no entry, and the fingerprint of them on disk.
-/
namespace DefineBundle.Bundler

open DefineBundle.Discovery (run SameAt SameInputs Unmatched entries entriesOf run_congr)
open DefineBundle.Fingerprint (previous?)
variable {σ : Type} {fs : FileSystem σ} {b : Bundler} {files : σ} {d : Discovery}

section
variable {s : Settings} {asked : List String} {start : σ} (hfs : fs.Isolates s asked start)
include hfs

theorem sameAt_of_writeAll_eq_ok (hat : fs.Wrote s.outputs.paths start files) {q : String}
    (hq : q ∈ asked) {as : List Asset} (has : ∀ a ∈ as, a.path ∈ s.outputs.paths ∧ q ≠ a.path)
    (h : (writeAll fs as files).1 = .ok ()) :
    SameAt (fs.view files) (fs.view (writeAll fs as files).2.2) q := by
  induction as generalizing files with
  | nil => exact .refl _ _
  | cons a as ih =>
      obtain ⟨files', hw, hrest, hfiles⟩ := writeAll_cons_eq_ok h
      rw [List.forall_mem_cons] at has
      rw [hfiles]
      have hfirst := hfs.sameAt hat has.1.1 hw q hq has.1.2
      exact hfirst.trans (ih (hat.write has.1.1 hw) has.2 hrest)

theorem entriesOf_of_writeAll_eq_ok (hat : fs.Wrote s.outputs.paths start files)
    {as : List Asset} (has : ∀ a ∈ as, a.path ∈ s.outputs.paths)
    (hno : ∀ p ∈ s.outputs.paths, Unmatched s p) (h : (writeAll fs as files).1 = .ok ())
    {input : String} (hinput : input ∈ s.input) {es : List String}
    (hes : entriesOf (fs.view files) input = .ok es) :
    entriesOf (fs.view (writeAll fs as files).2.2) input = .ok es := by
  induction as generalizing files with
  | nil => exact hes
  | cons a as ih =>
      obtain ⟨files', hw, hrest, hfiles⟩ := writeAll_cons_eq_ok h
      rw [List.forall_mem_cons] at has
      rw [hfiles]
      have hes' := hfs.entriesOf hat has.1 hw (hno a.path has.1) hinput hes
      exact ih (hat.write has.1 hw) has.2 hrest hes'

end

theorem exists_entriesOf {view : FileView} {s : Settings} {es : List String}
    (h : entries view s = .ok es) {input : String} (hinput : input ∈ s.input) :
    ∃ found, entriesOf view input = .ok found := by
  unfold entries at h
  obtain ⟨ess, hess, -⟩ := exists_of_bind_eq_ok h
  obtain ⟨found, -, hfound⟩ := exists_of_forall₂ (mapM_eq_ok_iff.mp hess) hinput
  exact ⟨found, hfound⟩

/-- Bundles that are neither visited nor entries are written without a change of the inputs. -/
theorem sameInputs_of_writeAll_eq_ok {o : Options} {current : String} {s : Settings}
    (hs : o.settings current = .ok s) (hrun : run (fs.view files) s .empty = .ok d)
    (hfs : fs.Isolates s d.visited files) (hno : ∀ p ∈ s.outputs.paths, Unmatched s p)
    (hvisited : ∀ p ∈ s.outputs.paths, p ∉ d.visited) {as : List Asset}
    (has : ∀ a ∈ as, a.path ∈ s.outputs.paths) (h : (writeAll fs as files).1 = .ok ()) :
    SameInputs s (fs.view files) (fs.view (writeAll fs as files).2.2) := by
  obtain ⟨es, -, he, -⟩ := Discovery.steps_of_run hrun
  refine Discovery.sameInputs_of_visited hs hrun (fun input hinput => ?_) fun q hq => ?_
  · obtain ⟨found, hfound⟩ := exists_entriesOf he hinput
    rw [hfound, entriesOf_of_writeAll_eq_ok hfs .refl has hno h hinput hfound]
  · refine sameAt_of_writeAll_eq_ok hfs .refl hq (fun a ha => ⟨has a ha, ?_⟩) h
    rintro rfl
    exact hvisited a.path (has a ha) hq

theorem covering_unmatched {s : Settings} (hinput : s.input = ["/a.js"]) (path : String) :
    Unmatched s path := by
  intro input hmem hpattern
  rw [hinput, List.mem_singleton] at hmem
  subst hmem
  exact absurd hpattern (by decide)

/-- Where the one module visited is not on disk, it is the inline one. -/
theorem run_of_missing {o : Options} {s : Settings} {disk : Disk}
    (hmissing : disk.view.isFile "/a.js" = false) (hs : o.settings "/" = .ok s)
    (hinput : s.input = ["/a.js"]) (hrun : run (Listing.view ∅) s .empty = .ok d)
    (hvisited : d.visited = ["/a.js"]) : run disk.view s .empty = .ok d := by
  have hempty : (Listing.view ∅).isFile "/a.js" = false := rfl
  refine (run_congr hs (Discovery.sameInputs_of_visited hs hrun ?_ ?_)).trans hrun
  · intro input hmem
    rw [hinput, List.mem_singleton] at hmem
    subst hmem
    rfl
  · intro p hp
    rw [hvisited, List.mem_singleton] at hp
    subst hp
    refine ⟨⟨hmissing.trans hempty.symm, fun hf => ?_⟩, fun hf => ?_⟩
    all_goals
      rw [hempty] at hf
      cases hf

theorem previous?_of_bare {disk : Disk} (h : disk.Bare) (s : Settings) :
    previous? disk.view s = none := by
  unfold previous?
  split
  · rfl
  · rename_i path _
    rw [if_neg (by simp [h.isFile_eq_false path])]

theorem build_of_bare {disk : Disk} (hlegible : b.settings.isLegible = true) (hbare : disk.Bare)
    {g : Bundle.Generation}
    (hrun : run disk.view b.settings .empty = .ok d)
    (hg : Bundle.generate ⟨b.tools, b.settings, d.modules,
      Fingerprint.of d.modules b.settings⟩ = .ok g)
    (hw : (writeAll Disk.fileSystem g.assets disk).1 = .ok ()) :
    (∃ out, (b.build Disk.fileSystem true disk).result = .ok out) ∧
      (b.build Disk.fileSystem true disk).files =
        (writeAll Disk.fileSystem g.assets disk).2.2 := by
  have hold : previous? disk.view b.settings ≠ some (Fingerprint.of d.modules b.settings) := by
    rw [previous?_of_bare hbare]
    exact (Option.some_ne_none _).symm
  exact build_of_writeAll_eq_ok hlegible hrun hold hg hw

theorem fits_of_mem {name : String} (h : name ∈ ["a.dev.js", "a.cov.js"]) :
    Disk.Fits [name] where
  named := by
    simp only [List.mem_singleton, forall_eq]
    simp only [List.mem_cons, List.not_mem_nil, or_false] at h
    rcases h with rfl | rfl
    all_goals exact ⟨⟨by decide, by decide, by decide⟩, by decide⟩
  fault := by
    revert name
    decide
  short := by
    simp only [List.mem_singleton, forall_eq]
    revert name
    decide

theorem writeText_blank (name : String) (h : name ∈ ["a.dev.js", "a.cov.js"]) (text : String) :
    Disk.writeText (Disk.pathOf [name]) text Disk.blank =
      (.ok (), ⟨[([name], .file ⟨some text, 1⟩)], "/", 1⟩) := by
  have hparent : Path.parent (Disk.pathOf [name]) = "/" := by
    revert name
    decide
  have hnode : Disk.blank.node? [name] = none := Disk.node?_blank (by simp)
  rw [Disk.writeText_of_find hparent (Disk.isTree_blank.find_name (fits_of_mem h))
    (by simp [hnode]) (by simp [hnode]) text]
  rfl

/-- What the first build of `covering` leaves on a blank disk. -/
def covered (text cover : String) : Disk :=
  ⟨[(["a.cov.js"], .file ⟨some cover, 1⟩), (["a.dev.js"], .file ⟨some text, 1⟩)], "/", 1⟩

theorem covering_built {s : Settings} (hs : covering.settings "/" = .ok s)
    (hinput : s.input = ["/a.js"])
    (houtputs : s.outputs = ⟨none, none, some "/a.dev.js", some "/a.cov.js"⟩)
    (hrun : run (Listing.view ∅) s .empty = .ok d) (hvisited : d.visited = ["/a.js"]) :
    ∃ out text cover, run Disk.blank.view s .empty = .ok d ∧
      (build Disk.fileSystem true ⟨s, coveringTools, .empty⟩ Disk.blank).result = .ok out ∧
      (build Disk.fileSystem true ⟨s, coveringTools, .empty⟩ Disk.blank).files =
        covered text cover := by
  obtain ⟨g, text, cover, hg, -, hassets⟩ :=
    covering_assets houtputs d.modules (Fingerprint.of d.modules s)
  have hblank := run_of_missing (Disk.bare_blank.isFile_eq_false "/a.js") hs hinput hrun hvisited
  have hdev : Disk.Fits ["a.dev.js"] := fits_of_mem (by simp)
  have hcov : Disk.Fits ["a.cov.js"] := fits_of_mem (by simp)
  have hfirst : Disk.writeText "/a.dev.js" text Disk.blank =
      (.ok (), ⟨[(["a.dev.js"], .file ⟨some text, 1⟩)], "/", 1⟩) :=
    writeText_blank "a.dev.js" (by simp) text
  have htree := (Disk.isTree_blank.writeText hdev.named hfirst).1
  have hnode : Disk.node? ⟨[(["a.dev.js"], .file ⟨some text, 1⟩)], "/", 1⟩ ["a.cov.js"] = none := by
    simp [Disk.node?, Disk.entryAt?]
  have hsecond : Disk.writeText "/a.cov.js" cover
      ⟨[(["a.dev.js"], .file ⟨some text, 1⟩)], "/", 1⟩ = (.ok (), covered text cover) :=
    Disk.writeText_of_find (by decide) (htree.find_name hcov) (by simp [hnode])
      (by simp [hnode]) cover
  have hwritten : (writeAll Disk.fileSystem g.assets Disk.blank).1 = .ok () ∧
      (writeAll Disk.fileSystem g.assets Disk.blank).2.2 = covered text cover := by
    simp [hassets, writeAll, Disk.fileSystem, hfirst, hsecond]
  obtain ⟨⟨out, hout⟩, hfiles⟩ := build_of_bare (b := ⟨s, coveringTools, .empty⟩)
    (Options.isLegible_of_settings hs) Disk.bare_blank hblank hg hwritten.1
  exact ⟨out, text, cover, hblank, hout, hfiles.trans hwritten.2⟩

/-- Of two bundles that go to the one file the second is left. -/
theorem writeAll_linked {name : String} (hname : name ∈ Disk.linkNames) {a c : Asset}
    (ha : a.path = "/a.dev.js" ∨ a.path = "/" ++ name)
    (hc : c.path = "/a.dev.js" ∨ c.path = "/" ++ name) (content : Option String) :
    (writeAll Disk.fileSystem [a, c] (Disk.linked name content)).1 = .ok () ∧
      (writeAll Disk.fileSystem [a, c] (Disk.linked name content)).2.2 =
        Disk.linked name (some c.content) := by
  have hfirst := Disk.writeText_linked hname content ha a.content
  have hsecond := Disk.writeText_linked hname (some a.content) hc c.content
  simp [writeAll, Disk.fileSystem, hfirst, hsecond]

theorem build_linked {name : String} (hlegible : b.settings.isLegible = true)
    (hname : name ∈ Disk.linkNames) {g : Bundle.Generation} {a c : Asset}
    (hrun : run (Disk.view (Disk.linked name none)) b.settings .empty = .ok d)
    (hg : Bundle.generate ⟨b.tools, b.settings, d.modules,
      Fingerprint.of d.modules b.settings⟩ = .ok g) (hassets : g.assets = [a, c])
    (ha : a.path = "/a.dev.js" ∨ a.path = "/" ++ name)
    (hc : c.path = "/a.dev.js" ∨ c.path = "/" ++ name) :
    (∃ out, (b.build Disk.fileSystem true (Disk.linked name none)).result = .ok out) ∧
      (b.build Disk.fileSystem true (Disk.linked name none)).files =
        Disk.linked name (some c.content) := by
  obtain ⟨hw, hleft⟩ := writeAll_linked hname ha hc none
  rw [← hassets] at hw hleft
  obtain ⟨hresult, hfiles⟩ := build_of_bare hlegible (Disk.bare_linked name) hrun hg hw
  exact ⟨hresult, hfiles.trans hleft⟩

/-- A build that leaves its inputs alone leaves the modules that are found. -/
theorem run_after_build {o : Options} {current : String} {out : Outcome}
    (hs : o.settings current = .ok b.settings)
    (hrun : run (fs.view files) b.settings .empty = .ok d)
    (hfs : fs.Isolates b.settings d.visited files)
    (hno : ∀ p ∈ b.settings.outputs.paths, Unmatched b.settings p)
    (hvisited : ∀ p ∈ b.settings.outputs.paths, p ∉ d.visited)
    (h : (b.build fs true files).result = .ok out) :
    run (fs.view (b.build fs true files).files) b.settings .empty = .ok d := by
  obtain ⟨d', -, -, -, ⟨-, -, -, hfiles⟩ | ⟨-, g, hg, -, hw, hfiles⟩⟩ := build_eq_ok h
  · rw [hfiles, hrun]
  · rw [hfiles]
    exact (run_congr hs (sameInputs_of_writeAll_eq_ok hs hrun hfs hno hvisited
      (fun a => path_mem_of_generate hg) hw)).trans hrun

/-- After a build that has written its bundles, or had them up to date, the same modules are found,
and their fingerprint is on disk. -/
theorem upToDate_after_build {o : Options} {current : String} {out : Outcome}
    (hs : o.settings current = .ok b.settings)
    (hdev : b.settings.outputs.development.isSome = true) (hhash : b.settings.hash = true)
    (hrun : run (fs.view files) b.settings .empty = .ok d)
    (hfs : fs.Isolates b.settings d.visited files)
    (hno : ∀ p ∈ b.settings.outputs.paths, Unmatched b.settings p)
    (hvisited : ∀ p ∈ b.settings.outputs.paths, p ∉ d.visited)
    (h : (b.build fs true files).result = .ok out) :
    run (fs.view (b.build fs true files).files) b.settings .empty = .ok d ∧
      previous? (fs.view (b.build fs true files).files) b.settings =
        some (Fingerprint.of d.modules b.settings) := by
  refine ⟨run_after_build hs hrun hfs hno hvisited h, ?_⟩
  obtain ⟨d', hrun', -, -, hend⟩ := build_eq_ok h
  obtain rfl : d = d' := Except.ok.inj (hrun.symm.trans hrun')
  rcases hend with ⟨-, -, hprevious, hfiles⟩ | ⟨-, g, hg, -, hw, hfiles⟩
  · rw [hfiles, hprevious]
  · obtain ⟨-, hn⟩ := Options.settings_eq_ok hs
    have hprevious := previous?_of_onDisk hg (onDisk_of_generate hfs.toSeparates hn hg hw) hdev
    rwa [hhash, if_pos rfl, ← hfiles] at hprevious

/-- On a disk without links and devices, seen from an absolute directory, this asks nothing of the
disk. -/
theorem upToDate_after_build_of_isTree {o : Options} {current : String} {out : Outcome}
    {disk : Disk} (htree : disk.IsTree) (hs : o.settings current = .ok b.settings)
    (hdirectory : Path.isAbsolute (o.directory current) = true)
    (hdev : b.settings.outputs.development.isSome = true) (hhash : b.settings.hash = true)
    (hrun : run disk.view b.settings .empty = .ok d)
    (habsolute : ∀ q ∈ d.visited, Path.isAbsolute q = true)
    (hno : ∀ p ∈ b.settings.outputs.paths, Unmatched b.settings p)
    (hvisited : ∀ p ∈ b.settings.outputs.paths, p ∉ d.visited)
    (h : (b.build Disk.fileSystem true disk).result = .ok out) :
    run (Disk.view (b.build Disk.fileSystem true disk).files) b.settings .empty = .ok d ∧
      previous? (Disk.view (b.build Disk.fileSystem true disk).files) b.settings =
        some (Fingerprint.of d.modules b.settings) := by
  obtain ⟨hpaths, hinputs⟩ := Disk.spells_of_settings hs hdirectory
  have hasked : ∀ q ∈ d.visited, Disk.Spells q := fun q hq =>
    Disk.spells_of_isNormal (Discovery.isNormal_of_mem_visited hs hrun hq) (habsolute q hq)
  have hisolated := htree.isolates hpaths hasked hinputs
  exact upToDate_after_build hs hdev hhash hrun hisolated hno hvisited h

/-- After a build that succeeds, another one with the same settings has nothing to do: it is
skipped, with the modules and the fingerprint of the first, and leaves all files as they are. This
takes outputs that are not themselves inputs, and that lead to files of their own. -/
theorem build_after_build {o : Options} {current : String} {b' : Bundler} {out : Outcome}
    (hs : o.settings current = .ok b.settings)
    (hdev : b.settings.outputs.development.isSome = true) (hhash : b.settings.hash = true)
    (hforce : b.settings.force = false)
    (hfs : ∀ d, run (fs.view files) b.settings .empty = .ok d →
      fs.Isolates b.settings d.visited files)
    (hno : ∀ p ∈ b.settings.outputs.paths, Unmatched b.settings p)
    (hvisited : ∀ d, run (fs.view files) b.settings .empty = .ok d →
      ∀ p ∈ b.settings.outputs.paths, p ∉ d.visited)
    (h : (b.build fs true files).result = .ok out) (hsettings : b'.settings = b.settings) :
    ∃ out', (b'.build fs true (b.build fs true files).files).result = .ok out' ∧
      out'.isSkipped = true ∧ out'.assets = [] ∧ out'.modules = out.modules ∧
      out'.fingerprint = out.fingerprint ∧
      (b'.build fs true (b.build fs true files).files).files = (b.build fs true files).files := by
  obtain ⟨settings, tools', cache'⟩ := b'
  obtain rfl : settings = b.settings := hsettings
  obtain ⟨d, hrun, hmodules, hfingerprint, -⟩ := build_eq_ok h
  obtain ⟨hrun', hprevious⟩ :=
    upToDate_after_build hs hdev hhash hrun (hfs d hrun) hno (hvisited d hrun) h
  obtain ⟨hresult, hfiles⟩ := build_of_previous? (b := ⟨b.settings, tools', cache'⟩)
    (Options.isLegible_of_settings hs) hrun' hforce hprevious true
  exact ⟨_, hresult, rfl, rfl, hmodules.symm, hfingerprint.symm, hfiles⟩

/-- The bundles of `covering` are up to date once they are written. -/
theorem build_after_build_covering : ∃ b out out',
    ofOptions "/" coveringTools covering = .ok b ∧
    (b.build Disk.fileSystem true Disk.blank).result = .ok out ∧
    ((b.build Disk.fileSystem true Disk.blank).bundler.build Disk.fileSystem true
      (b.build Disk.fileSystem true Disk.blank).files).result = .ok out' ∧
    out'.isSkipped = true ∧ out'.fingerprint = out.fingerprint := by
  obtain ⟨s, d, hs, hforce, hhash, hinput, houtputs, hrun, hvisited⟩ := covering_settings
  obtain ⟨out, -, -, hblank, hout, -⟩ := covering_built hs hinput houtputs hrun hvisited
  have hunvisited : ∀ p ∈ s.outputs.paths, p ∉ ["/a.js"] := by
    rw [houtputs]
    decide
  obtain ⟨hpaths, hinputs⟩ := Disk.spells_of_settings hs (by decide)
  obtain ⟨hsettings, -⟩ :=
    build_bundler Disk.fileSystem ⟨s, coveringTools, .empty⟩ true Disk.blank
  have hunique : ∀ d', run (Disk.fileSystem.view Disk.blank) s .empty = .ok d' →
      d'.visited = ["/a.js"] := fun d' hd' => by
    obtain rfl : d = d' := Except.ok.inj (hblank.symm.trans hd')
    exact hvisited
  obtain ⟨out', hout', hskipped, -, -, hfingerprint, -⟩ :=
    build_after_build (b := ⟨s, coveringTools, .empty⟩) hs (by rw [houtputs]; rfl) hhash hforce
      (fun d' hd' => Disk.isTree_blank.isolates hpaths
        (fun q hq => hinputs q (by rwa [hinput, ← hunique d' hd'])) hinputs)
      (fun p _ => covering_unmatched hinput p)
      (fun d' hd' p hp => by
        rw [hunique d' hd']
        exact hunvisited p hp) hout hsettings
  exact ⟨⟨s, coveringTools, .empty⟩, out, out', by rw [ofOptions, hs], hout, hout', hskipped,
    hfingerprint⟩

/-- Where the coverage bundle is a link to the development bundle, it takes the fingerprint away
again, and every build makes all bundles anew. -/
theorem build_after_build_linked : ∃ b out d, ofOptions "/" coveringTools covering = .ok b ∧
    b.settings.outputs.development.isSome = true ∧ b.settings.hash = true ∧
    b.settings.force = false ∧
    run (Disk.view (Disk.linked "a.cov.js" none)) b.settings .empty = .ok d ∧
    (∀ p ∈ b.settings.outputs.paths, Unmatched b.settings p ∧ p ∉ d.visited) ∧
    (b.build Disk.fileSystem true (Disk.linked "a.cov.js" none)).result = .ok out ∧
    ¬ ((b.build Disk.fileSystem true (Disk.linked "a.cov.js" none)).bundler.build Disk.fileSystem
      true (b.build Disk.fileSystem true (Disk.linked "a.cov.js" none)).files).IsSkipped := by
  obtain ⟨s, d, hs, hforce, hhash, hinput, houtputs, hrun, hvisited⟩ := covering_settings
  have hname : "a.cov.js" ∈ Disk.linkNames := by decide
  obtain ⟨g, text, covered, hg, -, hassets⟩ :=
    covering_assets houtputs d.modules (Fingerprint.of d.modules s)
  have hlinked := fun content => run_of_missing (Disk.isFile_linked_module hname content) hs hinput
    hrun hvisited
  have hdev : s.outputs.development = some "/a.dev.js" := by rw [houtputs]
  obtain ⟨⟨out, hout⟩, hfiles⟩ := build_linked (b := ⟨s, coveringTools, .empty⟩)
    (Options.isLegible_of_settings hs) hname (hlinked none) hg hassets (.inl rfl) (.inr rfl)
  obtain ⟨hsettings, -⟩ := build_bundler Disk.fileSystem ⟨s, coveringTools, .empty⟩ true
    (Disk.linked "a.cov.js" none)
  refine ⟨⟨s, coveringTools, .empty⟩, out, d, by rw [ofOptions, hs], by rw [hdev]; rfl, hhash,
    hforce, hlinked none, fun p hp => ⟨covering_unmatched hinput p, ?_⟩, hout, ?_⟩
  · rw [hvisited]
    revert p
    rw [houtputs]
    decide
  · rw [hfiles]
    generalize (build Disk.fileSystem true ⟨s, coveringTools, .empty⟩
      (Disk.linked "a.cov.js" none)).bundler = b' at hsettings ⊢
    obtain rfl : b'.settings = s := hsettings
    intro hskipped
    -- what is at the path of the development bundle is the coverage bundle
    obtain ⟨hfile, hread⟩ := Disk.read_linked hname (.inl rfl) covered
    have hmem : (⟨.coverage, "/a.cov.js", covered⟩ : Asset) ∈ g.assets := by simp [hassets]
    have hnone := Fingerprint.previous?_of_read hdev hfile hread
    rw [Bundle.read?_of_mem_assets hg hmem (.inr rfl), Option.map_none] at hnone
    have hsome := (previous?_of_isSkipped (hlinked (some covered)) hskipped).2
    rw [Disk.fileSystem, hnone] at hsome
    cases hsome

end DefineBundle.Bundler
