import DefineBundle.Proofs.Build.Repeating
import DefineBundle.Proofs.Fingerprint.Determined

/-!
# Sessions

Bundlers with the same settings and tools are used again and again, and in between the files of
modules change. When a build is skipped, all bundles that it would have made are on disk: whatever
fingerprint the development bundle carries was put there by a build that wrote all bundles, and a
fingerprint determines the modules, and so the bundles.
-/
namespace DefineBundle.Bundler

open DefineBundle.Discovery (run exists_isExact)
open DefineBundle.Fingerprint (previous? preimage)

variable {σ : Type} {fs : FileSystem σ} {s : Settings} {tools : Tools}

/-- What has happened to the files, and the states in which a bundler has looked at them, the last
one first. At the start there is no development bundle, and only bundlers touch their outputs. -/
inductive Session (fs : FileSystem σ) (s : Settings) (tools : Tools) : List σ → σ → Prop
  | start {files : σ}
      (missing : ∀ path, s.outputs.development = some path →
        (fs.view files).isFile path = false) :
      Session fs s tools [] files
  | edited {seen : List σ} {files files' : σ} (before : Session fs s tools seen files)
      (outputs : ∀ p ∈ s.outputs.paths, (fs.view files).SameText (fs.view files') p) :
      Session fs s tools seen files'
  | generated {seen : List σ} {files : σ} {b : Bundler} (before : Session fs s tools seen files)
      (settings : b.settings = s) (same : b.tools = tools) :
      Session fs s tools (files :: seen) (b.build fs false files).files
  | written {seen : List σ} {files : σ} {b : Bundler} {out : Outcome}
      (before : Session fs s tools seen files) (settings : b.settings = s)
      (same : b.tools = tools) (success : (b.build fs true files).result = .ok out) :
      Session fs s tools (files :: seen) (b.build fs true files).files

/-- All bundles of what is found in a state are on disk in another. -/
def LeftBy (fs : FileSystem σ) (s : Settings) (tools : Tools) (seen files : σ) : Prop :=
  ∃ d g, run (fs.view seen) s .empty = .ok d ∧
    Bundle.generate ⟨tools, s, d.modules, Fingerprint.of d.modules s⟩ = .ok g ∧
    ∀ a ∈ g.assets, a.OnDisk (fs.view files)

/-- Either no fingerprint is on disk, or the bundles are those of a state that was looked at. -/
def Accounted (fs : FileSystem σ) (s : Settings) (tools : Tools) (seen : List σ) (files : σ) :
    Prop :=
  previous? (fs.view files) s = none ∨ ∃ f ∈ seen, LeftBy fs s tools f files

theorem LeftBy.congr {seen files files' : σ} (h : LeftBy fs s tools seen files)
    (hsame : ∀ p ∈ s.outputs.paths, (fs.view files).SameText (fs.view files') p) :
    LeftBy fs s tools seen files' := by
  obtain ⟨d, g, hrun, hg, hall⟩ := h
  exact ⟨d, g, hrun, hg, fun a ha => (hall a ha).congr (hsame a.path (path_mem_of_generate hg ha))⟩

theorem Accounted.edited {seen : List σ} {files files' : σ} (h : Accounted fs s tools seen files)
    (hsame : ∀ p ∈ s.outputs.paths, (fs.view files).SameText (fs.view files') p) :
    Accounted fs s tools seen files' := by
  rcases h with hnone | ⟨f, hf, hleft⟩
  · refine .inl ((Fingerprint.previous?_congr fun path hp => hsame path ?_).trans hnone)
    exact Outputs.mem_paths_iff.mpr ⟨.development, hp⟩
  · exact .inr ⟨f, hf, hleft.congr hsame⟩

theorem Accounted.looked {seen : List σ} {files : σ} (h : Accounted fs s tools seen files)
    (f : σ) : Accounted fs s tools (f :: seen) files := by
  rcases h with hnone | ⟨f', hf', hleft⟩
  · exact .inl hnone
  · exact .inr ⟨f', List.mem_cons_of_mem f hf', hleft⟩

theorem build_false_files (fs : FileSystem σ) (b : Bundler) (files : σ) :
    (b.build fs false files).files = files := by
  cases hrun : run (fs.view files) b.settings .empty with
  | error e => exact (build_of_run_error hrun false).2
  | ok d =>
      rw [(build_of_run hrun false).2]
      unfold finish deliver
      cases Fingerprint.make d.modules b.settings with
      | error e => rfl
      | ok fingerprint =>
          dsimp only
          split
          · split <;> rfl
          · rfl

theorem Accounted.written {o : Options} {current : String} {b : Bundler} {seen : List σ}
    {files : σ} {out : Outcome} (hs : o.settings current = .ok b.settings)
    (hfs : fs.Separates b.settings.outputs.paths files)
    (h : Accounted fs b.settings b.tools seen files)
    (hok : (b.build fs true files).result = .ok out) :
    Accounted fs b.settings b.tools (files :: seen) (b.build fs true files).files := by
  obtain ⟨d, hrun, -, -, hend⟩ := build_eq_ok hok
  rcases hend with ⟨-, -, -, hfiles⟩ | ⟨-, g, hg, -, hw, hfiles⟩
  · rw [hfiles]
    exact h.looked files
  · obtain ⟨-, hn⟩ := Options.settings_eq_ok hs
    rw [hfiles]
    exact .inr ⟨files, List.mem_cons_self, d, g, hrun, hg, onDisk_of_generate hfs hn hg hw⟩

/-- At every moment of a session the fingerprint on disk is accounted for. -/
theorem Session.accounted {o : Options} {current : String} (hs : o.settings current = .ok s)
    {seen : List σ} {files : σ} (h : Session fs s tools seen files)
    (hfs : ∀ f ∈ seen, fs.Separates s.outputs.paths f) : Accounted fs s tools seen files := by
  induction h with
  | start missing =>
      refine .inl ?_
      cases hp : s.outputs.development with
      | none => simp [previous?, hp]
      | some path => simp [previous?, hp, missing path hp]
  | edited _ outputs ih => exact (ih hfs).edited outputs
  | generated _ _ _ ih =>
      rw [List.forall_mem_cons] at hfs
      rw [build_false_files]
      exact (ih hfs.2).looked _
  | @written seen files b out _ settings same success ih =>
      subst settings same
      rw [List.forall_mem_cons] at hfs
      exact (ih hfs.2).written hs hfs.1 success

/-- What is relied on in the states in which a bundler looks at the files: a text is told by its
path and its time of change, no output is among the files of modules, and digests tell apart what is
digested. -/
structure Reliable (fs : FileSystem σ) (s : Settings) (seen : List σ) : Prop where
  timed : ∀ f ∈ seen, ∀ f' ∈ seen, ∀ p, p ∉ s.outputs.paths → (fs.view f).Timed (fs.view f') p
  unvisited : ∀ f ∈ seen, ∀ d, run (fs.view f) s .empty = .ok d →
    ∀ p ∈ s.outputs.paths, p ∉ d.visited
  digested : ∀ f ∈ seen, ∀ f' ∈ seen, ∀ d d', run (fs.view f) s .empty = .ok d →
    run (fs.view f') s .empty = .ok d' →
    Sha256.hex (preimage d.modules s) = Sha256.hex (preimage d'.modules s) →
    preimage d.modules s = preimage d'.modules s

/-- States in which the same fingerprint is made have the same modules. -/
theorem Reliable.modules_eq {o : Options} {current : String} {seen : List σ} {f f' : σ}
    {d d' : Discovery} (h : Reliable fs s seen) (hs : o.settings current = .ok s) (hf : f ∈ seen)
    (hf' : f' ∈ seen) (hrun : run (fs.view f) s .empty = .ok d)
    (hrun' : run (fs.view f') s .empty = .ok d')
    (hNul : ∀ m ∈ d.modules ++ d'.modules, '\x00' ∉ m.path.toList)
    (he : Fingerprint.of d.modules s = Fingerprint.of d'.modules s) : d.modules = d'.modules := by
  obtain ⟨es, hx⟩ := exists_isExact hs hrun
  obtain ⟨es', hx'⟩ := exists_isExact hs hrun'
  have hpreimage := h.digested f hf f' hf' d d' hrun hrun' he
  refine hx.modules_eq_of_stamps hx' (fun p hp _ => h.timed f hf f' hf' p fun hout => ?_)
    (Fingerprint.map_stamp_eq_of_preimage_eq hNul hpreimage)
  exact h.unvisited f hf d hrun p hout hp

section
variable {start built : Disk} (hstart : start.Bare)
include hstart

theorem session_of_bare {b : Bundler} {out : Outcome}
    (hout : (b.build Disk.fileSystem true start).result = .ok out) :
    Session Disk.fileSystem b.settings b.tools [start]
      (b.build Disk.fileSystem true start).files := by
  refine .written (.start fun path _ => ?_) rfl rfl hout
  exact hstart.isFile_eq_false path

theorem timed_of_bare (hbuilt : ∀ e ∈ built.entries, ∀ f, e.2.node = .file f → f.modified ≠ 0)
    {f f' : Disk} (hf : f ∈ [built, start]) (hf' : f' ∈ [built, start]) (p : String) :
    (Disk.view f).Timed (Disk.view f') p := by
  have hfile : ∀ f ∈ [built, start], (Disk.view f).isFile p = true →
      f = built ∧ (Disk.view f).modified p ≠ .ok 0 := by
    intro f hf hisFile
    rcases List.mem_pair.mp hf with rfl | rfl
    · obtain ⟨e, hmem, file, hnode, hfile⟩ := Disk.exists_mem_entries_of_isFile hisFile
      rw [Disk.modified_of_file? hfile]
      exact ⟨rfl, fun he => hbuilt e hmem file hnode (Except.ok.inj he)⟩
    · rw [hstart.isFile_eq_false] at hisFile
      cases hisFile
  refine ⟨fun hisFile hisFile' _ _ _ => ?_, fun h => (hfile f hf h).2, fun h => (hfile f' hf' h).2⟩
  rw [(hfile f hf hisFile).1, (hfile f' hf' hisFile').1]

/-- Where everything found comes with the options, no file of a module changes. -/
theorem reliable_of_bare {d : Discovery}
    (hbuilt : ∀ e ∈ built.entries, ∀ f, e.2.node = .file f → f.modified ≠ 0)
    (hrun : ∀ f ∈ [built, start], run (Disk.view f) s .empty = .ok d)
    (hvisited : ∀ p ∈ s.outputs.paths, p ∉ d.visited) :
    Reliable Disk.fileSystem s [built, start] where
  timed f hf f' hf' p _ := timed_of_bare hstart hbuilt hf hf' p
  unvisited f hf d' hd' := by
    obtain rfl : d = d' := Except.ok.inj ((hrun f hf).symm.trans hd')
    exact hvisited
  digested f hf f' hf' d₁ d₂ h₁ h₂ _ := by
    obtain rfl : d = d₁ := Except.ok.inj ((hrun f hf).symm.trans h₁)
    obtain rfl : d = d₂ := Except.ok.inj ((hrun f' hf').symm.trans h₂)
    rfl

end

/-- Two bundles of one module, which comes with the options. -/
def sourcing : Options :=
  { Discovery.inlineOptions ["a.js"] [("a.js", "define('a', [], () => 0)")] with
    outputs := { Outputs.empty with source := some "a.src.js", development := some "a.dev.js" } }

theorem sourcing_settings : ∃ s d, sourcing.settings "/" = .ok s ∧ s.force = false ∧
    s.hash = true ∧ s.input = ["/a.js"] ∧
    s.outputs = ⟨some "/a.src.js", none, some "/a.dev.js", none⟩ ∧
    run (Listing.view ∅) s .empty = .ok d ∧ d.visited = ["/a.js"] :=
  Discovery.exists_of_inlineRun (by decide +kernel)

theorem sourcing_assets {s : Settings}
    (houtputs : s.outputs = ⟨some "/a.src.js", none, some "/a.dev.js", none⟩)
    (ms : List ModuleRecord) (fingerprint : String) : ∃ g code text,
      Bundle.generate ⟨Tools.standard, s, ms, fingerprint⟩ = .ok g ∧
      Bundle.development s ms fingerprint "/a.dev.js" = .ok text ∧
      g.assets = [⟨.source, "/a.src.js", code⟩, ⟨.development, "/a.dev.js", text⟩] := by
  obtain ⟨g, hg⟩ := Bundle.exists_generate_of_instrumented
    (m := ⟨Tools.standard, s, ms, fingerprint⟩) (by rw [houtputs]) fun i hi => by cases hi
  have hpath : ∀ t, s.outputs.path? t =
      Outputs.path? ⟨some "/a.src.js", none, some "/a.dev.js", none⟩ t := fun t => by rw [houtputs]
  obtain ⟨code, -, hsource⟩ := Bundle.asset?_of_generate hg (hpath .source) fun h => by
    obtain ⟨_, -, he⟩ := exists_of_map_eq_ok h
    cases he
  obtain ⟨text, htext, hdevelopment⟩ := Bundle.development_of_generate hg (hpath .development)
  refine ⟨g, code, text, hg, htext, ?_⟩
  rw [Bundle.assets_of_generate hg]
  have hminified := Bundle.asset?_eq_none ⟨Tools.standard, s, ms, fingerprint⟩ (hpath .minified)
  have hcoverage := Bundle.asset?_eq_none ⟨Tools.standard, s, ms, fingerprint⟩ (hpath .coverage)
  simp [Target.all, hsource, hdevelopment, hminified, hcoverage]

/-- Where the source bundle is a link to a file with a fingerprint, it is overwritten, for a source
bundle carries none. -/
theorem not_onDisk_linked {m : Bundle.Material} {g : Bundle.Generation} {code text : String}
    (hg : Bundle.generate m = .ok g) (ha : ⟨.source, "/a.src.js", code⟩ ∈ g.assets)
    (hmarked : (Fingerprint.read? text.toList).isSome = true) :
    ¬ Asset.OnDisk ⟨.source, "/a.src.js", code⟩
      (Disk.view (Disk.linked "a.src.js" (some text))) := by
  intro honDisk
  have hpath : "/a.src.js" = "/" ++ "a.src.js" := by decide
  obtain ⟨-, hthere⟩ := Disk.read_linked (by decide) (.inr hpath) text
  obtain rfl : text = code := Except.ok.inj (hthere.symm.trans honDisk.read)
  have hnone := Bundle.read?_of_mem_assets hg ha (.inl rfl)
  dsimp only at hnone
  rw [hnone] at hmarked
  cases hmarked

/-- When a build of a session is skipped, every bundle of the modules that it has found is on disk
with exactly its text. This takes outputs that lead to files of their own, and paths without NULs.
-/
theorem onDisk_of_isSkipped {o : Options} {current : String} {b : Bundler} {seen : List σ}
    {files : σ} (hs : o.settings current = .ok b.settings)
    (hsession : Session fs b.settings b.tools seen files)
    (hfs : ∀ f ∈ seen, fs.Separates b.settings.outputs.paths f)
    (hreliable : Reliable fs b.settings (files :: seen))
    (hNul : ∀ f ∈ files :: seen, ∀ d, run (fs.view f) b.settings .empty = .ok d →
      ∀ m ∈ d.modules, '\x00' ∉ m.path.toList)
    (hskipped : (b.build fs true files).IsSkipped) :
    ∃ d g, run (fs.view files) b.settings .empty = .ok d ∧
      Bundle.generate ⟨b.tools, b.settings, d.modules, Fingerprint.of d.modules b.settings⟩ =
        .ok g ∧
      ∀ a ∈ g.assets, a.OnDisk (fs.view (b.build fs true files).files) := by
  obtain ⟨out, hout, -⟩ := id hskipped
  obtain ⟨d, hrun, -⟩ := build_eq_ok hout
  obtain ⟨hforce, hprevious⟩ := previous?_of_isSkipped hrun hskipped
  obtain ⟨-, hfiles⟩ :=
    build_of_previous? (Options.isLegible_of_settings hs) hrun hforce hprevious true
  rcases hsession.accounted hs hfs with hnone | ⟨f, hf, d', g, hrun', hg, hall⟩
  · rw [hnone] at hprevious
    cases hprevious
  · have hdev : b.settings.outputs.development.isSome = true := by
      by_contra hno
      have hmissing : b.settings.outputs.development = none := by simpa using hno
      simp [previous?, hmissing] at hprevious
    -- the fingerprint on disk is that of the earlier state, and that of the present one
    have hearlier := previous?_of_onDisk hg hall hdev
    rw [hprevious] at hearlier
    have he : Fingerprint.of d.modules b.settings = Fingerprint.of d'.modules b.settings := by
      split at hearlier
      · exact Option.some.inj hearlier
      · cases hearlier
    have hf' : f ∈ files :: seen := List.mem_cons_of_mem files hf
    have hmodules : d.modules = d'.modules := by
      refine hreliable.modules_eq hs List.mem_cons_self hf' hrun hrun' ?_ he
      rw [List.forall_mem_append]
      exact ⟨hNul files List.mem_cons_self d hrun, hNul f hf' d' hrun'⟩
    refine ⟨d, g, hrun, ?_, ?_⟩
    · rw [hmodules]
      exact hg
    · rw [hfiles]
      exact hall

/-- The second build of `covering` in a session is skipped, and both bundles are there. -/
theorem onDisk_of_isSkipped_covering : ∃ b files d g,
    ofOptions "/" coveringTools covering = .ok b ∧
    Session Disk.fileSystem b.settings b.tools [Disk.blank] files ∧
    (b.build Disk.fileSystem true files).IsSkipped ∧
    run (Disk.view files) b.settings .empty = .ok d ∧
    Bundle.generate ⟨b.tools, b.settings, d.modules, Fingerprint.of d.modules b.settings⟩ =
      .ok g ∧
    ∀ a ∈ g.assets, a.OnDisk (Disk.view (b.build Disk.fileSystem true files).files) := by
  obtain ⟨s, d, hs, hforce, hhash, hinput, houtputs, hrun, hvisited⟩ := covering_settings
  obtain ⟨out, text, cover, hblank, hout, hfiles⟩ :=
    covering_built hs hinput houtputs hrun hvisited
  have hbare : Disk.blank.Bare := fun e he => absurd he List.not_mem_nil
  have hunvisited : ∀ p ∈ s.outputs.paths, p ∉ d.visited := by
    rw [houtputs, hvisited]
    decide
  obtain ⟨hrun', hprevious⟩ := upToDate_after_build_of_isTree
    (b := ⟨s, coveringTools, .empty⟩) Disk.isTree_blank hs (by decide) (by rw [houtputs]; rfl) hhash
    hblank (by rw [hvisited]; decide) (fun p _ => covering_unmatched hinput p) hunvisited hout
  have hsession := session_of_bare hbare hout
  rw [hfiles] at hrun' hprevious hsession
  have hbuilt : ∀ e ∈ (covered text cover).entries, ∀ f, e.2.node = .file f → f.modified ≠ 0 := by
    simp [covered, Entry.file, Entry.node, eq_comm]
  have hruns : ∀ f ∈ [covered text cover, Disk.blank], run (Disk.view f) s .empty = .ok d := by
    simp [hrun', hblank]
  have hNul : ∀ p ∈ d.visited, '\x00' ∉ p.toList := by
    rw [hvisited]
    decide
  have hskipped : (build Disk.fileSystem true ⟨s, coveringTools, .empty⟩
      (covered text cover)).IsSkipped :=
    (isSkipped_iff_of_run (b := ⟨s, coveringTools, .empty⟩) (Options.isLegible_of_settings hs)
      hrun' hforce true).mpr hprevious
  obtain ⟨d', g', hd', hg', hall⟩ := onDisk_of_isSkipped (b := ⟨s, coveringTools, .empty⟩)
    hs hsession
    (fun f hf => by
      rw [List.mem_singleton.mp hf]
      exact Disk.isTree_blank.separates (Disk.spells_of_settings hs (by decide)).1)
    (reliable_of_bare hbare hbuilt hruns hunvisited)
    (fun f hf d' hd' => by
      obtain rfl : d = d' := Except.ok.inj ((hruns f hf).symm.trans hd')
      obtain ⟨es, hx⟩ := exists_isExact hs hrun
      exact fun m hm => hNul m.path (hx.path_mem m hm))
    hskipped
  exact ⟨⟨s, coveringTools, .empty⟩, covered text cover, d', g', by rw [ofOptions, hs], hsession,
    hskipped, hd', hg', hall⟩

/-- Where the source bundle is a link to the development bundle, it is overwritten, and still a
build is skipped. -/
theorem onDisk_of_isSkipped_linked : ∃ b seen files d g a,
    ofOptions "/" Tools.standard sourcing = .ok b ∧
    Session Disk.fileSystem b.settings b.tools seen files ∧
    Reliable Disk.fileSystem b.settings (files :: seen) ∧
    (∀ f ∈ files :: seen, ∀ f' ∈ files :: seen, ∀ p, (Disk.view f).Timed (Disk.view f') p) ∧
    (b.build Disk.fileSystem true files).IsSkipped ∧
    run (Disk.view files) b.settings .empty = .ok d ∧
    Bundle.generate ⟨b.tools, b.settings, d.modules, Fingerprint.of d.modules b.settings⟩ =
      .ok g ∧ a ∈ g.assets ∧
    ¬ a.OnDisk (Disk.view (b.build Disk.fileSystem true files).files) := by
  obtain ⟨s, d, hs, hforce, hhash, hinput, houtputs, hrun, hvisited⟩ := sourcing_settings
  have hname : "a.src.js" ∈ Disk.linkNames := by decide
  obtain ⟨g, code, text, hg, htext, hassets⟩ :=
    sourcing_assets houtputs d.modules (Fingerprint.of d.modules s)
  have hlinked := fun content => run_of_missing (Disk.isFile_linked_module hname content) hs hinput
    hrun hvisited
  have hdev : s.outputs.development = some "/a.dev.js" := by rw [houtputs]
  obtain ⟨⟨out, hout⟩, hfiles⟩ := build_linked (b := ⟨s, Tools.standard, .empty⟩)
    (Options.isLegible_of_settings hs) hname (hlinked none) hg hassets (.inr rfl) (.inl rfl)
  have hbare := Disk.bare_linked "a.src.js"
  have hsession := session_of_bare hbare hout
  rw [hfiles] at hsession
  have hunvisited : ∀ p ∈ s.outputs.paths, p ∉ d.visited := by
    rw [houtputs, hvisited]
    decide
  have hbuilt : ∀ e ∈ (Disk.linked "a.src.js" (some text)).entries, ∀ f, e.2.node = .file f →
      f.modified ≠ 0 := by
    simp [Disk.linked, Entry.file, Entry.link, Entry.node, eq_comm]
  have hruns : ∀ f ∈ [Disk.linked "a.src.js" (some text), Disk.linked "a.src.js" none],
      run (Disk.view f) s .empty = .ok d := by
    simp [hlinked]
  have hreliable := reliable_of_bare hbare hbuilt hruns hunvisited
  obtain ⟨hfile, hread⟩ := Disk.read_linked hname (.inl rfl) text
  have hmarked : Fingerprint.read? text.toList = some (Fingerprint.of d.modules s).toList := by
    rw [Fingerprint.of] at htext
    rw [Bundle.read?_development htext, hhash]
    rfl
  have hprevious : previous? (Disk.fileSystem.view (Disk.linked "a.src.js" (some text))) s =
      some (Fingerprint.of d.modules s) := by
    rw [Disk.fileSystem, Fingerprint.previous?_of_read hdev hfile hread, hmarked, Option.map_some,
      String.ofList_toList]
  obtain ⟨hresult, hsame⟩ := build_of_previous? (b := ⟨s, Tools.standard, .empty⟩)
    (Options.isLegible_of_settings hs) (hlinked (some text)) hforce hprevious true
  have hsource : (⟨.source, "/a.src.js", code⟩ : Asset) ∈ g.assets := by simp [hassets]
  refine ⟨⟨s, Tools.standard, .empty⟩, _, _, d, g, _, by rw [ofOptions, hs], hsession, hreliable,
    fun f hf f' hf' => timed_of_bare hbare hbuilt hf hf', ⟨_, hresult, rfl⟩, hlinked _, hg, hsource,
    ?_⟩
  rw [hsame]
  exact not_onDisk_linked hg hsource (by rw [hmarked]; rfl)

end DefineBundle.Bundler
