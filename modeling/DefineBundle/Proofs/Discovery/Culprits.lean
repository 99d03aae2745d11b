import DefineBundle.Proofs.Discovery.Chains
import DefineBundle.Proofs.Script.DefineCalls

/-!
# What failures name

A discovery fails at the first trouble that it meets on its walk and names a path. What it says of
the path holds of the files as they stand, whatever way led there: a missing path has no text, and
it is an entry or asked for by the file named with it; a file with a bad declaration is reached, and
its text is no script or holds a call of `define` that declares no module. When nothing was found,
no file that is reached holds such a call at all.
-/
namespace DefineBundle

open DefineBundle.Path (IsNormal)

/-- Neither a file nor an inline source is at the path. -/
structure IsMissing (view : FileView) (s : Settings) (path : String) : Prop where
  noFile : view.isFile path = false
  noSource : s.inlineSources.contains path = false

/-- What a fault says of the files that the entries `es` reach. -/
def BuildFault.Names (view : FileView) (s : Settings) (es : List String) : BuildFault → Prop
  | missingFile path none => IsMissing view s path ∧ path ∈ es
  | missingFile path (some r) =>
      IsMissing view s path ∧ Discovery.Reachable view s es r ∧ Discovery.Edge view s r path
  | badDeclaration path reason => Discovery.Reachable view s es path ∧
      ∃ t, SourceText.at? view s.inlineSources path = .ok (some t) ∧
        reason.Describes (s.tokens.substitute t.text)
  | nothingDiscovered => ∀ p, Discovery.Reachable view s es p →
      ∃ t tree, SourceText.at? view s.inlineSources p = .ok (some t) ∧
        Script.parse? (s.tokens.substitute t.text) = some tree ∧ tree.defineCalls = []
  | inaccessible path cause => Discovery.Reachable view s es path ∧ view.isFile path = true ∧
      (view.read path = .error cause ∨ view.modified path = .error cause)
  | badTemplate _ _ => False
  | badOptions _ => False

namespace Discovery

section
variable {view : FileView} {s : Settings} {es : List String} {d : Discovery} {js : List Job}

/-- A file that is to be opened is an entry, or one that is being loaded asks for it. -/
theorem Job.Fits.referrer {path : String} {referrer : Option String} {ps : List String}
    (h : Job.Fits view s es (.file path referrer) ps) : referrer = none ∧ path ∈ es ∨
      ∃ r ∈ ps, referrer = some r ∧ Edge view s r path := by
  cases h with
  | entry hmem => exact .inl ⟨rfl, hmem⟩
  | asked hedge => exact .inr ⟨_, List.mem_cons_self, rfl, hedge⟩
  | own ho => cases ho

theorem fetch_eq_error {path : String} {referrer : Option String} {h : Halted Discovery}
    (hfetch : fetch view s path referrer d = .error h) : ∃ fault, h.failure = .of fault ∧
      ((SourceText.find view s.inlineSources path d.cache).1 = .error fault ∨
        (SourceText.find view s.inlineSources path d.cache).1 = .ok none ∧
          fault = .missingFile path referrer) := by
  unfold fetch at hfetch
  split at hfetch
  · rename_i fault cache hfind
    cases hfetch
    exact ⟨fault, rfl, .inl (by rw [hfind])⟩
  · rename_i cache hfind
    cases hfetch
    exact ⟨_, rfl, .inr ⟨by rw [hfind], rfl⟩⟩
  · cases hfetch

/-- What stops a discovery is as it is said to be. -/
theorem Explores.names_of_halts {c : Stage} {h : Halted Discovery} (hes : ∀ e ∈ es, IsNormal e)
    (he : Explores view s es c) (hlinked : Linked view s es c.agenda) (hh : Halts view s c h) :
    ∃ fault, h.failure = .of fault ∧ fault.Names view s es := by
  cases hh with
  | @unreadable path referrer js d _ hnew hfetch =>
      have hr : Reachable view s es path := he.sound.jobs _ List.mem_cons_self
      have hfind := (SourceText.find_of_mirrors he.sound.mirrors (hr.isNormal hes)
        s.inlineSources).1
      obtain ⟨fault, hfault, hat | ⟨hat, rfl⟩⟩ := fetch_eq_error hfetch
      · obtain ⟨cause, rfl, hfile, hcause⟩ := SourceText.of_at?_eq_error (hfind.symm.trans hat)
        exact ⟨_, hfault, hr, hfile, hcause⟩
      · obtain ⟨hfile, hsource⟩ := SourceText.of_at?_eq_none (hfind.symm.trans hat)
        refine ⟨_, hfault, ?_⟩
        rcases hlinked.1.referrer with ⟨rfl, hmem⟩ | ⟨r, hmem, rfl, hedge⟩
        · exact ⟨⟨hfile, hsource⟩, hmem⟩
        -- the referrer is still being loaded, so it has been visited
        · have hload : d.loading = js.filterMap Job.leaves? := he.nested.loading
          have hvisited := he.nested.loading_visited r (hload ▸ hmem)
          exact ⟨⟨hfile, hsource⟩, he.sound.reached r hvisited, hedge⟩
  | @malformed path referrer js d _ t reason hnew hfetch hms =>
      have hr : Reachable view s es path := he.sound.jobs _ List.mem_cons_self
      obtain ⟨hat, -⟩ := at?_of_fetch (d := d.enter path) he.sound.mirrors (hr.isNormal hes) hfetch
      exact ⟨_, rfl, hr, t, hat, describes_of_declarationsOf hms⟩

/-- When every job is done and no module is found, no file that is reached has one. -/
theorem Explores.names_nothing (he : Explores view s es ⟨[], d⟩) (hm : d.modules = []) :
    BuildFault.nothingDiscovered.Names view s es := by
  intro p hp
  have hv : p ∈ d.visited := (he.mem_visited_iff p).mpr hp
  obtain ⟨⟨o, ms⟩, hfile⟩ := Option.isSome_iff_exists.mp (he.recorded.there p hv)
  have hrecords := he.filter_modules p
  rw [hm, if_pos hv, recordsAt, hfile] at hrecords
  obtain rfl : ms = [] := by simpa using hrecords.symm
  obtain ⟨t, -, hat, hnone⟩ := fileAt?_eq_some_iff.mp hfile
  obtain ⟨tree, htree, hcalls⟩ := exists_of_declarationsOf_eq_nil hnone
  exact ⟨t, tree, hat, htree, hcalls⟩

/-- Where the entries are not known, the files for a pattern cannot be listed. -/
theorem exists_of_entries_eq_error {fault : BuildFault} (h : entries view s = .error fault) :
    ∃ input ∈ s.input, ∃ cause, Path.Glob.isPattern input.toList = true ∧
      view.walk (Path.Glob.staticBase input) = .error cause ∧
      fault = .inaccessible (Path.Glob.staticBase input) cause := by
  unfold entries at h
  cases hm : s.input.mapM (entriesOf view) with
  | ok ess =>
      rw [hm] at h
      cases h
  | error f =>
      rw [hm] at h
      cases h
      obtain ⟨input, hmem, hinput⟩ := exists_of_mapM_eq_error hm
      refine ⟨input, hmem, ?_⟩
      unfold entriesOf at hinput
      split at hinput
      · rename_i hpattern
        split at hinput
        · rename_i cause hwalk
          cases hinput
          exact ⟨cause, hpattern, hwalk, rfl⟩
        · cases hinput
      · cases hinput

/-- A discovery that fails says what holds of the files that the entries reach, or the files for one
of its patterns cannot be listed. -/
theorem failure_names_culprit {o : Options} {current : String} {h : Halted Discovery}
    (hs : o.settings current = .ok s) (hrun : run view s .empty = .error h) :
    ∃ fault, h.failure = .of fault ∧
      ((∃ es, entries view s = .ok es ∧ fault.Names view s es) ∨
        ∃ input ∈ s.input, ∃ cause, Path.Glob.isPattern input.toList = true ∧
          view.walk (Path.Glob.staticBase input) = .error cause ∧
          fault = .inaccessible (Path.Glob.staticBase input) cause) := by
  rcases run_cases view s .empty with ⟨fault, d, hentries, he⟩ | ⟨es, log, hentries, hcases⟩
  · rw [hrun] at he
    cases he
    exact ⟨fault, rfl, .inr (exists_of_entries_eq_error hentries)⟩
  · have hes : ∀ e ∈ es, IsNormal e := fun _ => isNormal_of_mem_entries hs hentries
    rcases hcases with ⟨d, hsteps, he⟩ | ⟨c, h', hsteps, hhalts, he⟩
    · rw [hrun] at he
      split at he
      · rename_i hempty
        cases he
        have hnothing := (explores_of_steps hes hsteps).names_nothing (List.isEmpty_iff.mp hempty)
        exact ⟨_, rfl, .inl ⟨es, hentries, hnothing⟩⟩
      · cases he
    · rw [hrun] at he
      cases he
      obtain ⟨fault, hfault, hnames⟩ := (explores_of_steps hes hsteps).names_of_halts hes
        (linked_of_steps hes hsteps) hhalts
      exact ⟨fault, hfault, .inl ⟨es, hentries, hnames⟩⟩

end

/-- Why a build in the root directory fails when there is nothing on disk. -/
def inlineFailure (o : Options) : Option Failure :=
  match o.settings "/" with
  | .error _ => none
  | .ok s => match run (Listing.view ∅) s .empty with
    | .error h => some h.failure
    | .ok _ => none

theorem of_inlineFailure {o : Options} {f : Failure} (h : inlineFailure o = some f) :
    ∃ s h, o.settings "/" = .ok s ∧ run (Listing.view ∅) s .empty = .error h ∧ h.failure = f := by
  unfold inlineFailure at h
  split at h
  · cases h
  · rename_i s hs
    split at h
    · rename_i h' hrun
      cases h
      exact ⟨s, h', hs, hrun, rfl⟩
    · cases h

/-- An entry that is not there, and that a file asks for before its turn comes. -/
def askingForMissing : Options :=
  inlineOptions ["e.js", "b.js"]
    [("e.js", "define('e', ['a'], (a) => 0)"),
      ("a.js", "define('a', [], () => 0); define('c', ['c', 'b'], (c, b) => 0)")]

theorem failure_names_culprit_asked : ∃ (s : Settings) (h : Halted Discovery),
    askingForMissing.settings "/" = .ok s ∧ run (Listing.view ∅) s .empty = .error h ∧
      h.failure = .of (.missingFile "/b.js" (some "/a.js")) ∧
      IsMissing (Listing.view ∅) s "/b.js" ∧ Edge (Listing.view ∅) s "/a.js" "/b.js" := by
  have hfailure : inlineFailure askingForMissing =
      some (.of (.missingFile "/b.js" (some "/a.js"))) := by
    decide +kernel
  obtain ⟨s, h, hs, hrun, hf⟩ := of_inlineFailure hfailure
  obtain ⟨fault, hfault, hnames⟩ := failure_names_culprit hs hrun
  obtain rfl : fault = .missingFile "/b.js" (some "/a.js") := by
    simpa [Failure.of] using hfault.symm.trans hf
  rcases hnames with ⟨es, -, hmissing, -, hedge⟩ | ⟨_, _, _, _, _, he⟩
  · exact ⟨s, h, hs, hrun, hf, hmissing, hedge⟩
  · cases he

end Discovery

end DefineBundle
