import DefineBundle.Proofs.Build.Skipping
import DefineBundle.Proofs.Build.Writing
import DefineBundle.Proofs.Discovery.Repeatable

/-!
# Builds after a failed write

A build that fails is to be made again: the next one must not take the bundles for up to date. All
it looks at is the fingerprint in the development bundle, and bundles are written one after the
other. So it depends on the bundle that was refused. In front of the development bundle nothing has
happened to the fingerprint on disk, which was an older one; behind it, when the bundle carries a
fingerprint, it is that of the build that failed, and the refused bundle is never made.
-/
namespace DefineBundle.Bundler

open DefineBundle.Discovery (run SameInputs run_congr)
open DefineBundle.Fingerprint (previous?)

variable {σ : Type} {fs : FileSystem σ} {b : Bundler} {files files' : σ} {d : Discovery}

/-- The target of the bundle that cannot be written, for the modules that were found. -/
def refused? (fs : FileSystem σ) (b : Bundler) (files : σ) (ms : List ModuleRecord) :
    Option Target :=
  match Bundle.generate ⟨b.tools, b.settings, ms, Fingerprint.of ms b.settings⟩ with
  | .error _ => none
  | .ok g => firstRefused fs g.assets files

/-- A failed build leaves its fingerprint behind: in a development bundle that was written before
another bundle was refused, or in what a refused write made of the development bundle. -/
def LeavesFingerprint (fs : FileSystem σ) (b : Bundler) (files files' : σ)
    (ms : List ModuleRecord) : Prop :=
  refused? fs b files ms = some .coverage ∧ b.settings.outputs.development.isSome ∧
      b.settings.hash = true ∨
    refused? fs b files ms = some .development ∧
      previous? (fs.view files') b.settings = some (Fingerprint.of ms b.settings)

/-- A failing build either makes no bundles and writes nothing, or has one refused. -/
theorem deliver_eq_error {e : Failure}
    (h : (deliver fs true b files d (Fingerprint.of d.modules b.settings)).1 = .error e) :
    (refused? fs b files d.modules = none ∧
        (deliver fs true b files d (Fingerprint.of d.modules b.settings)).2.2 = files) ∨
      ∃ g t, Bundle.generate ⟨b.tools, b.settings, d.modules,
          Fingerprint.of d.modules b.settings⟩ = .ok g ∧
        firstRefused fs g.assets files = some t ∧ refused? fs b files d.modules = some t ∧
        (deliver fs true b files d (Fingerprint.of d.modules b.settings)).2.2 =
          (writeAll fs g.assets files).2.2 := by
  unfold deliver refused? at *
  cases hg : Bundle.generate ⟨b.tools, b.settings, d.modules,
      Fingerprint.of d.modules b.settings⟩ with
  | error e => exact .inl ⟨rfl, rfl⟩
  | ok g =>
      rw [hg] at h
      simp only [if_true] at h ⊢
      cases ht : firstRefused fs g.assets files with
      | none =>
          rw [writeAll_eq_ok_iff.mpr ht] at h
          cases h
      | some t => exact .inr ⟨g, t, rfl, ht, rfl, rfl⟩

/-- A build with a refused bundle fails, and leaves what it has written. -/
theorem build_of_refused {g : Bundle.Generation} {t : Target}
    (hlegible : b.settings.isLegible = true)
    (hrun : run (fs.view files) b.settings .empty = .ok d) (hforce : b.settings.force = false)
    (hold : previous? (fs.view files) b.settings ≠ some (Fingerprint.of d.modules b.settings))
    (hg : Bundle.generate ⟨b.tools, b.settings, d.modules,
      Fingerprint.of d.modules b.settings⟩ = .ok g)
    (ht : firstRefused fs g.assets files = some t) :
    (∃ e, (b.build fs true files).result = .error e) ∧
      (b.build fs true files).files = (writeAll fs g.assets files).2.2 ∧
      refused? fs b files d.modules = some t := by
  have hnot := mt (isSkipped_iff_of_run hlegible hrun hforce true).mp hold
  obtain ⟨hresult, hfiles⟩ := build_of_not_isSkipped hlegible hrun hnot
  unfold deliver at hresult hfiles
  rw [hg] at hresult hfiles
  simp only [if_true] at hresult hfiles
  refine ⟨?_, hfiles, by rw [refused?, hg]; exact ht⟩
  cases hw : (writeAll fs g.assets files).1 with
  | error e =>
      rw [hw] at hresult
      exact ⟨e, hresult⟩
  | ok _ =>
      rw [writeAll_eq_ok_iff.mp hw] at ht
      cases ht

theorem not_leavesFingerprint {ms : List ModuleRecord} {t : Option Target}
    (ht : refused? fs b files ms = t) (hcoverage : t ≠ some .coverage)
    (hdevelopment : t ≠ some .development) : ¬ LeavesFingerprint fs b files files' ms := by
  subst ht
  rintro (⟨h, -⟩ | ⟨h, -⟩)
  · exact hcoverage h
  · exact hdevelopment h

/-- What is read after a failing build is its own fingerprint only if it has left it. -/
theorem previous?_iff_leavesFingerprint {e : Failure} (hn : b.settings.outputs.paths.Nodup)
    (hfs : ∀ path, b.settings.outputs.development = some path →
      fs.KeepsApart path b.settings.outputs.paths)
    (hold : previous? (fs.view files) b.settings ≠ some (Fingerprint.of d.modules b.settings))
    (herr : (deliver fs true b files d (Fingerprint.of d.modules b.settings)).1 = .error e)
    (hleft : ∀ path, b.settings.outputs.development = some path →
      (fs.view (deliver fs true b files d (Fingerprint.of d.modules b.settings)).2.2).SameText
        (fs.view files') path) :
    previous? (fs.view files') b.settings = some (Fingerprint.of d.modules b.settings) ↔
      LeavesFingerprint fs b files files' d.modules := by
  have hkept (hsame : ∀ path, b.settings.outputs.development = some path →
      (fs.view files).SameText (fs.view files') path) :
      previous? (fs.view files') b.settings ≠ some (Fingerprint.of d.modules b.settings) := by
    rwa [Fingerprint.previous?_congr hsame]
  rcases deliver_eq_error herr with ⟨hnone, hfiles⟩ | ⟨g, t, hg, ht, hrefused, hfiles⟩
  · rw [hfiles] at hleft
    exact iff_of_false (hkept hleft) (not_leavesFingerprint hnone (by simp) (by simp))
  · rw [hfiles] at hleft
    cases hp : b.settings.outputs.development with
    | none =>
        have hprev : previous? (fs.view files') b.settings = none := by simp [previous?, hp]
        constructor
        · intro h
          rw [hprev] at h
          cases h
        · rintro (⟨-, h, -⟩ | ⟨-, h⟩)
          · rw [hp] at h
            cases h
          · exact h
    | some path =>
        have hsame := hleft path hp
        -- A refused write may have made anything of the development bundle; what an earlier or a
        -- later refusal leaves there is known.
        rcases left_behind hg hn hp (hfs path hp) ht with
          rfl | ⟨hearly, hunchanged⟩ | ⟨rfl, text, htext, hfile, hread⟩
        · simp [LeavesFingerprint, hrefused]
        · refine iff_of_false (hkept fun q hq => ?_) (not_leavesFingerprint hrefused ?_ ?_)
          · obtain rfl : path = q := Option.some.inj (hp.symm.trans hq)
            exact hunchanged.trans hsame
          · rcases hearly with rfl | rfl <;> simp
          · rcases hearly with rfl | rfl <;> simp
        · have hprev := Fingerprint.previous?_of_read hp (hsame.isFile.trans hfile)
            ((hsame.read hfile).trans hread)
          rw [hprev, Bundle.read?_development htext]
          cases hhash : b.settings.hash with
          | true => simp [LeavesFingerprint, hrefused, hp, hhash, Fingerprint.of]
          | false => simp [LeavesFingerprint, hrefused, hhash]

/-- After a failed build, another build of the same inputs that is not skipped fails where the first
one did, while looking for modules, or makes and writes all bundles again. It is skipped exactly
when the failed one has left its fingerprint behind, provided nothing has changed it since. -/
theorem isSkipped_after_failure_iff {o : Options} {current : String} {b' : Bundler} {e : Failure}
    (hs : o.settings current = .ok b.settings) (hforce : b.settings.force = false)
    (herr : (b.build fs true files).result = .error e)
    (hsettings : b'.settings = b.settings) (htools : b'.tools = b.tools)
    (hinputs : SameInputs b.settings (fs.view files) (fs.view files')) :
    (¬ (b'.build fs true files').IsSkipped →
        (∃ h, run (fs.view files) b.settings .empty = .error h) ∧
            (b'.build fs true files').result = .error e ∨
          ∃ d, run (fs.view files) b.settings .empty = .ok d ∧
            (b'.build fs true files').result =
              (deliver fs true b files' d (Fingerprint.of d.modules b.settings)).1 ∧
            (b'.build fs true files').files =
              (deliver fs true b files' d (Fingerprint.of d.modules b.settings)).2.2) ∧
      ((∀ path, b.settings.outputs.development = some path →
          fs.KeepsApart path b.settings.outputs.paths ∧
            (fs.view (b.build fs true files).files).SameText (fs.view files') path) →
        ((b'.build fs true files').IsSkipped ↔
          ∃ d, run (fs.view files) b.settings .empty = .ok d ∧
            LeavesFingerprint fs b files files' d.modules)) := by
  have hlegible := Options.isLegible_of_settings hs
  have hrun' := run_congr hs hinputs
  -- A build clears the cache first, so the second bundler may come with any.
  obtain ⟨settings, tools, cache⟩ := b'
  obtain rfl : settings = b.settings := hsettings
  obtain rfl : tools = b.tools := htools
  cases hrun : run (fs.view files) b.settings .empty with
  | error h =>
      rw [hrun] at hrun'
      obtain ⟨hfirst, -⟩ := build_of_run_error hrun true
      obtain ⟨hsecond, -⟩ := build_of_run_error (b := ⟨b.settings, b.tools, cache⟩) hrun' true
      have he : e = h.failure := Except.error.inj (herr.symm.trans hfirst)
      refine ⟨fun _ => .inl ⟨⟨h, rfl⟩, he ▸ hsecond⟩, fun _ => ⟨?_, ?_⟩⟩
      · rintro ⟨o, ho, -⟩
        rw [hsecond] at ho
        cases ho
      · rintro ⟨d, hd, -⟩
        cases hd
  | ok d =>
      rw [hrun] at hrun'
      have hnot : ¬ (b.build fs true files).IsSkipped := by
        rintro ⟨o, ho, -⟩
        rw [herr] at ho
        cases ho
      obtain ⟨hresult, hfiles⟩ := build_of_not_isSkipped hlegible hrun hnot
      refine ⟨fun hagain => .inr ⟨d, rfl, build_of_not_isSkipped hlegible hrun' hagain⟩,
        fun hdev => ?_⟩
      rw [hresult] at herr
      rw [hfiles] at hdev
      obtain ⟨-, hn⟩ := Options.settings_eq_ok hs
      have hold := mt (isSkipped_iff_of_run hlegible hrun hforce true).mpr hnot
      have hiff := previous?_iff_leavesFingerprint hn (fun path hp => (hdev path hp).1) hold herr
        fun path hp => (hdev path hp).2
      have hskipped :=
        isSkipped_iff_of_run (b := ⟨b.settings, b.tools, cache⟩) hlegible hrun' hforce true
      rw [hskipped, hiff]
      constructor
      · exact fun hleaves => ⟨d, rfl, hleaves⟩
      · rintro ⟨d', hd', hleaves⟩
        cases hd'
        exact hleaves

/-- Listings in which some paths cannot be written. -/
def refusing (refused : List String) : FileSystem Listing where
  view := Listing.view
  write path text files :=
    if path ∈ refused then (.error ⟨"refused", []⟩, files) else Listing.write path text files

theorem keepsApart_refusing (refused : List String) (path : String) (paths : List String) :
    (refusing refused).KeepsApart path paths where
  written text files files' h := by
    unfold refusing at h
    dsimp only at h
    split at h
    · cases h
    · cases h
      simp [refusing, Listing.view, Listing.read, Listing.write, Assoc.contains,
        Assoc.get?_insert]
  untouched p hp hne text files := by
    unfold refusing
    dsimp only
    split
    · exact .refl _ _
    · constructor
      · simp [Listing.view, Listing.write, Assoc.contains, Assoc.get?_insert, hne.symm]
      · intro hfile
        simp [Listing.view, Listing.read, Listing.write, Assoc.get?_insert, hne.symm]

/-- A development and a coverage bundle of one module, which comes with the options. -/
def covering : Options :=
  { Discovery.inlineOptions ["a.js"] [("a.js", "define('a', [], () => 0)")] with
    outputs := { Outputs.empty with
      development := some "a.dev.js", coverage := some "a.cov.js" } }

def coveringTools : Tools :=
  { Tools.standard with instrument := some fun _ source => .ok source }

theorem covering_settings : ∃ s d, covering.settings "/" = .ok s ∧ s.force = false ∧
    s.hash = true ∧ s.input = ["/a.js"] ∧
    s.outputs = ⟨none, none, some "/a.dev.js", some "/a.cov.js"⟩ ∧
    run (Listing.view ∅) s .empty = .ok d ∧ d.visited = ["/a.js"] :=
  Discovery.exists_of_inlineRun (by decide +kernel)

theorem covering_assets {s : Settings}
    (houtputs : s.outputs = ⟨none, none, some "/a.dev.js", some "/a.cov.js"⟩)
    (ms : List ModuleRecord) (fingerprint : String) : ∃ g text covered,
      Bundle.generate ⟨coveringTools, s, ms, fingerprint⟩ = .ok g ∧
      Bundle.development s ms fingerprint "/a.dev.js" = .ok text ∧
      g.assets =
        [⟨.development, "/a.dev.js", text⟩, ⟨.coverage, "/a.cov.js", covered⟩] := by
  obtain ⟨g, hg⟩ := Bundle.exists_generate_of_instrumented
    (m := ⟨coveringTools, s, ms, fingerprint⟩) (by rw [houtputs]) fun i hi f =>
      ⟨f.source, by rw [← hi]; rfl⟩
  have hpath : ∀ t, s.outputs.path? t =
      Outputs.path? ⟨none, none, some "/a.dev.js", some "/a.cov.js"⟩ t := fun t => by rw [houtputs]
  obtain ⟨text, htext, hdevelopment⟩ := Bundle.development_of_generate hg (hpath .development)
  obtain ⟨covered, -, hcoverage⟩ := Bundle.asset?_of_generate hg (hpath .coverage) fun h => by
    obtain ⟨_, -, he⟩ := exists_of_map_eq_ok h
    cases he
  refine ⟨g, text, covered, hg, htext, ?_⟩
  rw [Bundle.assets_of_generate hg]
  have hsource := Bundle.asset?_eq_none ⟨coveringTools, s, ms, fingerprint⟩ (hpath .source)
  have hminified := Bundle.asset?_eq_none ⟨coveringTools, s, ms, fingerprint⟩ (hpath .minified)
  simp [Target.all, hsource, hminified, hdevelopment, hcoverage]

theorem previous?_empty (s : Settings) : previous? (Listing.view ∅) s = none := by
  unfold previous?
  split <;> rfl

/-- The first build of `covering`: what is written before a bundle is refused, and which. -/
theorem covering_build {refused : List String} {s : Settings} {d : Discovery}
    {g : Bundle.Generation} {t : Target} (hlegible : s.isLegible = true)
    (hforce : s.force = false) (hrun : run (Listing.view ∅) s .empty = .ok d)
    (hg : Bundle.generate ⟨coveringTools, s, d.modules, Fingerprint.of d.modules s⟩ = .ok g)
    (ht : firstRefused (refusing refused) g.assets ∅ = some t) :
    (∃ e, (build (refusing refused) true ⟨s, coveringTools, .empty⟩ ∅).result = .error e) ∧
      (build (refusing refused) true ⟨s, coveringTools, .empty⟩ ∅).files =
        (writeAll (refusing refused) g.assets ∅).2.2 ∧
      refused? (refusing refused) ⟨s, coveringTools, .empty⟩ ∅ d.modules = some t := by
  have hold : previous? (Listing.view ∅) s ≠ some (Fingerprint.of d.modules s) := by
    rw [previous?_empty]
    exact (Option.some_ne_none _).symm
  exact build_of_refused hlegible hrun hforce hold hg ht

/-- A development bundle that was refused is made by the next build. -/
theorem isSkipped_after_failure_iff_development : ∃ b e,
    ofOptions "/" coveringTools covering = .ok b ∧
    (b.build (refusing ["/a.dev.js"]) true ∅).result = .error e ∧
    ¬ ((b.build (refusing ["/a.dev.js"]) true ∅).bundler.build (refusing ["/a.dev.js"]) true
      (b.build (refusing ["/a.dev.js"]) true ∅).files).IsSkipped := by
  obtain ⟨s, d, hs, hforce, -, -, houtputs, hrun, -⟩ := covering_settings
  obtain ⟨g, text, covered, hg, -, hassets⟩ :=
    covering_assets houtputs d.modules (Fingerprint.of d.modules s)
  have ht : firstRefused (refusing ["/a.dev.js"]) g.assets ∅ = some .development := by
    rw [hassets]
    rfl
  obtain ⟨⟨e, he⟩, hfiles, hrefused⟩ :=
    covering_build (Options.isLegible_of_settings hs) hforce hrun hg ht
  have hunchanged : (writeAll (refusing ["/a.dev.js"]) g.assets ∅).2.2 = ∅ := by
    rw [hassets]
    rfl
  rw [hunchanged] at hfiles
  refine ⟨⟨s, coveringTools, .empty⟩, e, by rw [ofOptions, hs], he, ?_⟩
  obtain ⟨hsettings, htools⟩ :=
    build_bundler (refusing ["/a.dev.js"]) ⟨s, coveringTools, .empty⟩ true ∅
  have hiff := (isSkipped_after_failure_iff (b := ⟨s, coveringTools, .empty⟩) hs hforce he hsettings
    htools (.refl s _)).2 fun path _ =>
      ⟨keepsApart_refusing _ path _, by rw [hfiles]; exact .refl _ path⟩
  rw [hfiles, hiff]
  rintro ⟨d', hd', hleaves⟩
  obtain rfl : d = d' := Except.ok.inj (hrun.symm.trans hd')
  rcases hleaves with ⟨hcoverage, -⟩ | ⟨-, hprev⟩
  · rw [hrefused] at hcoverage
    cases hcoverage
  · have hnone : previous? ((refusing ["/a.dev.js"]).view ∅) s = none := previous?_empty s
    rw [hnone] at hprev
    cases hprev

/-- When the coverage bundle is refused, the fingerprint is already on disk: the next build takes
all bundles for up to date, and never tries to write the one that is missing. -/
theorem isSkipped_after_refused_coverage : ∃ b e,
    ofOptions "/" coveringTools covering = .ok b ∧ b.settings.force = false ∧
    (b.build (refusing ["/a.cov.js"]) true ∅).result = .error e ∧
    SameInputs b.settings (Listing.view ∅)
      (Listing.view (b.build (refusing ["/a.cov.js"]) true ∅).files) ∧
    ((b.build (refusing ["/a.cov.js"]) true ∅).bundler.build (refusing ["/a.cov.js"]) true
      (b.build (refusing ["/a.cov.js"]) true ∅).files).IsSkipped := by
  obtain ⟨s, d, hs, hforce, hhash, hinput, houtputs, hrun, hvisited⟩ := covering_settings
  obtain ⟨g, text, covered, hg, htext, hassets⟩ :=
    covering_assets houtputs d.modules (Fingerprint.of d.modules s)
  have ht : firstRefused (refusing ["/a.cov.js"]) g.assets ∅ = some .coverage := by
    rw [hassets]
    rfl
  obtain ⟨⟨e, he⟩, hfiles, -⟩ := covering_build (Options.isLegible_of_settings hs) hforce hrun hg ht
  have hwritten : (writeAll (refusing ["/a.cov.js"]) g.assets ∅).2.2 =
      (∅ : Listing).insert "/a.dev.js" ⟨some text, 0⟩ := by
    rw [hassets]
    rfl
  rw [hwritten] at hfiles
  have hsame : SameInputs s (Listing.view ∅)
      (Listing.view ((∅ : Listing).insert "/a.dev.js" ⟨some text, 0⟩)) := by
    refine Discovery.sameInputs_of_visited hs hrun (fun input hmem => ?_) fun p hp => ?_
    · rw [hinput, List.mem_singleton] at hmem
      subst hmem
      rfl
    · rw [hvisited, List.mem_singleton] at hp
      subst hp
      have hmissing : (Listing.view ∅).isFile "/a.js" = false := rfl
      refine ⟨⟨?_, fun hf => ?_⟩, fun hf => ?_⟩
      · rw [hmissing]
        simp [Listing.view, Assoc.contains, Assoc.get?_insert]
      · rw [hmissing] at hf
        cases hf
      · rw [hmissing] at hf
        cases hf
  refine ⟨⟨s, coveringTools, .empty⟩, e, by rw [ofOptions, hs], hforce, he, ?_⟩
  obtain ⟨hsettings, -⟩ :=
    build_bundler (refusing ["/a.cov.js"]) ⟨s, coveringTools, .empty⟩ true ∅
  generalize (build (refusing ["/a.cov.js"]) true ⟨s, coveringTools, .empty⟩ ∅).bundler = b at *
  obtain rfl : b.settings = s := hsettings
  rw [hfiles]
  refine ⟨hsame, ?_⟩
  have hagain := (run_congr hs hsame).trans hrun
  refine (isSkipped_iff_of_run (Options.isLegible_of_settings hs) hagain hforce true).mpr ?_
  obtain ⟨hfile, hread⟩ := (keepsApart_refusing ["/a.cov.js"] "/a.dev.js" []).written text ∅ _ rfl
  have hdev : b.settings.outputs.development = some "/a.dev.js" := by rw [houtputs]
  have hprev := Fingerprint.previous?_of_read hdev hfile hread
  rw [Bundle.read?_development htext, hhash, if_pos rfl, Option.map_some,
    String.ofList_toList] at hprev
  exact hprev

end DefineBundle.Bundler
