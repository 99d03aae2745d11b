import DefineBundle.Proofs.Discovery.Lookup
import DefineBundle.Proofs.Files.Denotations
import DefineBundle.Proofs.Files.Walks
import DefineBundle.Proofs.Layout.Owners

/-!
# One spelling for each path

Paths come into a discovery as entries, as matches of patterns, from the ids of modules, from
overrides and with inline sources. Whichever way a path comes, what is worked with is its normal
form seen from the working directory. So two spellings of one path are the same string, no file is
loaded twice, and an inline source is found under every spelling of its path.
-/
namespace DefineBundle

open Disk (Denotes Spells spells_normalize)
open DefineBundle.Path (isAbsolute isAbsolute_join)

namespace Options

section
variable {o : Options} {current : String} {s : Settings}

theorem spells_directory (hcurrent : Spells current) : Spells (o.directory current) := by
  unfold directory
  cases o.workingDirectory with
  | none => exact hcurrent
  | some w => exact spells_normalize (isAbsolute_join hcurrent.isAbsolute w)

theorem spells_resolvePath {directory : String} (h : Spells directory) (path : String) :
    Spells (resolvePath directory path) :=
  spells_normalize (isAbsolute_join h.isAbsolute path)

theorem spells_library (hcurrent : Spells current) (hs : o.settings current = .ok s)
    {e : String × Library} (he : e ∈ s.libraries.entries) : Spells e.2.baseDirectory := by
  have hlibraries := (resolved_of_settings hs).libraries
  unfold libraries? at hlibraries
  split at hlibraries
  · cases hlibraries
  · rw [← Except.ok.inj hlibraries] at he
    obtain ⟨l, -, rfl⟩ := List.mem_map.mp he
    exact spells_resolvePath (spells_directory hcurrent) _

theorem spells_base (hcurrent : Spells current) (hs : o.settings current = .ok s)
    (hbase : o.baseDirectory ≠ none ∨ s.input.head? ≠ some "/") : Spells s.baseDirectory := by
  have hdirectory : Spells (o.directory current) := spells_directory hcurrent
  rw [(resolved_of_settings hs).base, base]
  cases hb : o.baseDirectory with
  | some b => exact spells_resolvePath hdirectory b
  | none =>
      have hroot : s.input.head? ≠ some "/" := hbase.resolve_left fun h => h hb
      cases hinput : s.input.head? with
      | none => exact hdirectory
      | some e =>
          have he := (Disk.spells_of_settings hs hdirectory.isAbsolute).2 e
            (List.mem_of_mem_head? hinput)
          exact Disk.spells_entryDirectory he fun h => hroot (h ▸ hinput)

end

end Options

namespace Discovery

open DefineBundle.Script (Declaration)

def Job.path : Job → String
  | file path _ => path
  | arity o _ => o.path
  | dependency o _ _ => o.path
  | record o _ => o.path
  | leave path => path

/-- Nothing is worked on or recorded but paths of one kind. -/
structure Confined (P : String → Prop) (c : Stage) : Prop where
  agenda : ∀ j ∈ c.agenda, P j.path
  visited : ∀ p ∈ c.found.visited, P p
  recorded : ∀ m ∈ c.found.modules, P m.path

section
variable {view : FileView} {s : Settings} {P : String → Prop}

theorem path_of_mem_jobsOfFile {o : Origin} {ms : List Declaration} {j : Job}
    (h : j ∈ jobsOfFile o ms) : j.path = o.path := by
  rcases List.mem_append.mp h with h | h
  · obtain ⟨m, -, h⟩ := List.mem_flatMap.mp h
    simp only [jobsOf, List.mem_append, List.mem_cons, List.mem_map, List.not_mem_nil,
      or_false] at h
    rcases h with (rfl | ⟨dep, -, rfl⟩) | rfl <;> rfl
  · rw [List.mem_singleton.mp h]
    rfl

theorem Confined.step {c c' : Stage} (hid : ∀ id, P (s.pathOf id)) (h : Confined P c)
    (hs : Step view s c c') : Confined P c' := by
  obtain ⟨hj⟩ := hs
  rename_i j js new d d'
  have hjob : P j.path := h.agenda j List.mem_cons_self
  have hjs : ∀ k ∈ js, P k.path := fun k hk => h.agenda k (List.mem_cons_of_mem _ hk)
  have hkept : (∀ k ∈ new, P k.path) → d'.visited = d.visited → d'.modules = d.modules →
      Confined P ⟨new ++ js, d'⟩ := by
    intro hnew hv hm
    exact ⟨List.forall_mem_append.mpr ⟨hnew, hjs⟩, hv ▸ h.visited, hm ▸ h.recorded⟩
  cases hj with
  | known _ => exact hkept (by simp) rfl rfl
  | arity => exact hkept (by simp) (checkArity_visited ..) (checkArity_modules ..)
  | skipped _ => exact hkept (by simp) rfl rfl
  | declared _ _ _ => exact hkept (by simp) rfl rfl
  | circular _ _ _ => exact hkept (by simp) rfl rfl
  | followed _ _ => exact hkept (by simpa [Job.path] using hid _) rfl rfl
  | left => exact hkept (by simp) rfl rfl
  | recorded =>
      refine ⟨hjs, by simpa using h.visited, ?_⟩
      rw [record_modules, List.forall_mem_append]
      exact ⟨h.recorded, by simpa [recordOf, Job.path] using hjob⟩
  | @opened path _ _ _ t ms _ hfetch _ =>
      obtain ⟨cache, -, rfl⟩ := fetch_eq_ok hfetch
      refine ⟨List.forall_mem_append.mpr ⟨fun k hk => ?_, hjs⟩, ?_, h.recorded⟩
      · rw [path_of_mem_jobsOfFile hk]
        exact hjob
      · exact List.forall_mem_append.mpr ⟨h.visited, by simpa [Job.path] using hjob⟩

theorem confined_of_steps {es : List String} {cache : FileCache} {log : List Message} {c : Stage}
    (hes : ∀ e ∈ es, P e) (hid : ∀ id, P (s.pathOf id))
    (hs : Steps view s (opening es cache log) c) : Confined P c := by
  induction hs with
  | refl =>
      refine ⟨?_, by simp [opening, start], by simp [opening, start]⟩
      simpa [opening, Job.path] using hes
  | tail _ hstep ih => exact ih.step hid hstep

end

/-- A path as it is given to a build, and the string that is worked with: it comes as an entry, as
a match of a pattern, from the id of a module, from an override or with an inline source. -/
inductive Enters (view : FileView) (o : Options) (current : String) (s : Settings) :
    String → String → Prop
  | entry {path : String} : path ∈ o.inputs.elim [] Inputs.patterns →
      Path.Glob.isPattern (Options.resolvePath (o.directory current) path).toList = false →
      Enters view o current s path (Options.resolvePath (o.directory current) path)
  | matched {input path : String} {files : List String} : input ∈ s.input →
      Path.Glob.isPattern input.toList = true →
      view.walk (Path.Glob.staticBase input) = .ok files → path ∈ files →
      Path.normalize path ∈ matching input files →
      Enters view o current s path (Path.normalize path)
  | dependency {id : String} : s.overrides.get? id = none →
      Enters view o current s (Path.join (s.baseFor id) (Layout.fileOf
        (((s.namespaceFor id).bind fun ns => Layout.below? ns id).getD id.toList))) (s.pathOf id)
  | override {id path : String} : (o.moduleOverrides.getD ∅).get? id = some path →
      Enters view o current s path (s.pathOf id)
  | inlineSource {path text : String} : (path, text) ∈ (o.inlineSources.getD ∅).entries →
      Enters view o current s path (Options.resolvePath (o.directory current) path)

section
variable {view : FileView} {o : Options} {current : String} {s : Settings} {path p : String}

theorem exists_enters_of_mem_entries (hs : o.settings current = .ok s) {es : List String}
    (he : entries view s = .ok es) (hp : p ∈ es) : ∃ path, Enters view o current s path p := by
  unfold entries at he
  obtain ⟨found, hfound, he⟩ := exists_of_bind_eq_ok he
  cases he
  obtain ⟨es, hes, hp⟩ := List.mem_flatten.mp hp
  obtain ⟨input, hinput, hof⟩ := exists_of_mem_mapM hfound hes
  unfold entriesOf at hof
  split at hof
  · rename_i hpattern
    split at hof
    · cases hof
    · rename_i files hwalk
      cases hof
      have hmatch := (List.mem_filter.mp (List.mem_mergeSort.mp hp)).1
      obtain ⟨path, hpath, rfl⟩ := List.mem_map.mp hmatch
      exact ⟨path, .matched hinput hpattern hwalk hpath hp⟩
  · rename_i hpattern
    cases hof
    rw [List.mem_singleton.mp hp]
    rw [(Options.settings_eq_ok hs).1] at hinput
    obtain ⟨path, hpath, rfl⟩ := List.mem_map.mp hinput
    exact ⟨path, .entry hpath (by simpa using hpattern)⟩

theorem exists_enters_pathOf (hs : o.settings current = .ok s) (id : String) :
    ∃ path, Enters view o current s path (s.pathOf id) := by
  cases hid : s.overrides.get? id with
  | none => exact ⟨_, .dependency hid⟩
  | some p =>
      rw [(Options.resolved_of_settings hs).overrides, Assoc.get?_map,
        Option.map_eq_some_iff] at hid
      obtain ⟨path, hpath, -⟩ := hid
      exact ⟨path, .override hpath⟩

/-- What is worked with is the normal form of the path, seen from the working directory. -/
theorem Enters.eq_resolvePath (hcurrent : Spells current) (hs : o.settings current = .ok s)
    (hbase : o.baseDirectory ≠ none ∨ s.input.head? ≠ some "/")
    (h : Enters view o current s path p) :
    p = Options.resolvePath (o.directory current) path := by
  have hdirectory : Spells (o.directory current) := Options.spells_directory hcurrent
  -- an absolute path is seen alike from every directory
  have hseen : ∀ path, isAbsolute path = true →
      Path.normalize path = Options.resolvePath (o.directory current) path := by
    intro path hpath
    simp [Options.resolvePath, Path.join, hpath]
  cases h with
  | entry _ _ => rfl
  | inlineSource _ => rfl
  | @matched input _ _ hinput _ _ _ hmatch =>
      have hpattern := (Disk.spells_of_settings hs hdirectory.isAbsolute).2 input hinput
      have hmatches := (List.mem_filter.mp (List.mem_mergeSort.mp hmatch)).2
      have hnormal := Path.Glob.isAbsolute_of_matchesPath hpattern.isAbsolute hmatches
      exact hseen path (Path.isAbsolute_of_normalize hnormal)
  | @dependency id hid =>
      have hfor : Spells (s.baseFor id) := by
        rcases s.baseFor_cases id with hown | ⟨e, he, hlibrary⟩
        · exact hown ▸ Options.spells_base hcurrent hs hbase
        · exact hlibrary ▸ Options.spells_library hcurrent hs he
      rw [Layout.pathOf, hid]
      exact hseen _ (isAbsolute_join hfor.isAbsolute _)
  | @override id _ hid =>
      have hget : s.overrides.get? id = some (Options.resolvePath (o.directory current) path) := by
        rw [(Options.resolved_of_settings hs).overrides, Assoc.get?_map, hid]
        rfl
      rw [Layout.pathOf, hget]
      exact (Options.spells_resolvePath hdirectory path).normalize_eq

/-- What two paths come to is the same string just when they lead to one location from the working
directory. -/
theorem Enters.eq_iff (hcurrent : Spells current) (hs : o.settings current = .ok s)
    (hbase : o.baseDirectory ≠ none ∨ s.input.head? ≠ some "/")
    (h : Enters view o current s path p) {path' p' : String}
    (h' : Enters view o current s path' p') :
    p = p' ↔ ∃ l, Denotes (Path.join (o.directory current) path) l ∧
      Denotes (Path.join (o.directory current) path') l := by
  have hdirectory : Spells (o.directory current) := Options.spells_directory hcurrent
  have hjoin := isAbsolute_join hdirectory.isAbsolute
  rw [h.eq_resolvePath hcurrent hs hbase, h'.eq_resolvePath hcurrent hs hbase]
  exact Disk.normalize_eq_normalize_iff (hjoin path) (hjoin path')

theorem Enters.spells (hcurrent : Spells current) (hs : o.settings current = .ok s)
    (hbase : o.baseDirectory ≠ none ∨ s.input.head? ≠ some "/")
    (h : Enters view o current s path p) : Spells p := by
  rw [h.eq_resolvePath hcurrent hs hbase]
  exact Options.spells_resolvePath (Options.spells_directory hcurrent) path

/-- A discovery visits what paths come to, and records it with the modules. -/
theorem confined_of_run {cache : FileCache} {d : Discovery} (hs : o.settings current = .ok s)
    (h : run view s cache = .ok d) :
    Confined (fun p => ∃ path, Enters view o current s path p) ⟨[], d⟩ ∧ d.visited.Nodup := by
  obtain ⟨es, log, hes, hsteps, -⟩ := steps_of_run h
  exact ⟨confined_of_steps (fun _ => exists_enters_of_mem_entries hs hes)
    (exists_enters_pathOf hs) hsteps,
    ((nested_opening view s es cache log).steps hsteps).visited_nodup⟩

end

/-- One path has one spelling. Directories, overrides, inline sources and everything that a
discovery visits or records are absolute and in normal form, whatever is on disk. What comes in by
two ways is the same string just when both lead to one location from the working directory, so no
location is visited twice, and an inline source is there under every spelling of its path. The
current directory is taken to be absolute and in normal form, as systems report it. -/
theorem one_spelling {o : Options} {current : String} {s : Settings} (hcurrent : Spells current)
    (hs : o.settings current = .ok s)
    (hbase : o.baseDirectory ≠ none ∨ s.input.head? ≠ some "/") :
    (Spells s.baseDirectory ∧ (∀ e ∈ s.libraries.entries, Spells e.2.baseDirectory) ∧
      (∀ e ∈ s.overrides.entries, Spells e.2) ∧ ∀ e ∈ s.inlineSources.entries, Spells e.1) ∧
    (∀ view cache d, run view s cache = .ok d →
      (∀ p ∈ d.visited, Spells p ∧ ∃ path, Enters view o current s path p) ∧
      (∀ m ∈ d.modules, Spells m.path) ∧
      d.visited.Pairwise fun p q => ¬ ∃ l, Denotes p l ∧ Denotes q l) ∧
    ∀ view path p, Enters view o current s path p → Spells p ∧
      (∀ path' p', Enters view o current s path' p' →
        (p = p' ↔ ∃ l, Denotes (Path.join (o.directory current) path) l ∧
          Denotes (Path.join (o.directory current) path') l)) ∧
      ∀ e ∈ (o.inlineSources.getD ∅).entries,
        (∃ l, Denotes (Path.join (o.directory current) path) l ∧
          Denotes (Path.join (o.directory current) e.1) l) →
        s.inlineSources.contains p = true := by
  have hdirectory : Spells (o.directory current) := Options.spells_directory hcurrent
  have hresolved := Options.resolved_of_settings hs
  refine ⟨⟨Options.spells_base hcurrent hs hbase, fun e => Options.spells_library hcurrent hs,
    fun e he => ?_, fun e he => ?_⟩, fun view cache d hrun => ?_, fun view path p hp => ?_⟩
  · rw [hresolved.overrides] at he
    obtain ⟨raw, -, rfl⟩ := List.mem_map.mp he
    exact Options.spells_resolvePath hdirectory _
  · have hkey : e.1 ∈ s.inlineSources.entries.map Prod.fst := List.mem_map_of_mem he
    rw [hresolved.inlineSources, Assoc.mem_keys_ofList] at hkey
    simp only [List.map_map, List.mem_map, Function.comp_apply] at hkey
    obtain ⟨raw, -, hraw⟩ := hkey
    exact hraw ▸ Options.spells_resolvePath hdirectory _
  · obtain ⟨hconfined, hnodup⟩ := confined_of_run hs hrun
    have hspells : ∀ p, (∃ path, Enters view o current s path p) → Spells p :=
      fun p ⟨_, hp⟩ => hp.spells hcurrent hs hbase
    refine ⟨fun p hp => ⟨hspells p (hconfined.visited p hp), hconfined.visited p hp⟩,
      fun m hm => hspells _ (hconfined.recorded m hm), ?_⟩
    refine hnodup.imp_of_mem fun {p q} hp hq hne hsame => hne ?_
    have hp' := hspells p (hconfined.visited p hp)
    exact (hp'.eq_iff (hspells q (hconfined.visited q hq))).mpr hsame
  · refine ⟨hp.spells hcurrent hs hbase, fun _ _ => hp.eq_iff hcurrent hs hbase,
      fun e he hsame => ?_⟩
    have hsource : Enters view o current s e.1 _ := .inlineSource he
    rw [(hp.eq_iff hcurrent hs hbase hsource).mpr hsame, Assoc.contains_iff,
      hresolved.inlineSources, Assoc.mem_keys_ofList, List.map_map]
    exact List.mem_map_of_mem (f := Prod.fst ∘ _) he

/-- Untidy spellings of an entry, of inline sources and of an id come to the same two strings. -/
theorem one_spelling_untidy : ∃ s d,
    (inlineOptions ["./a.js"] [("x/../a.js", "define('a', ['.b'], () => 0)"),
      (".//b.js", "define('b', [], () => 0)")]).settings "/" = .ok s ∧
    run (Listing.view ∅) s .empty = .ok d ∧ d.visited = ["/a.js", "/b.js"] ∧
    (∀ p ∈ d.visited, Spells p) ∧ s.inlineSources.contains "/a.js" = true := by
  have hfound : (inlineRun (inlineOptions ["./a.js"] [("x/../a.js", "define('a', ['.b'], () => 0)"),
      (".//b.js", "define('b', [], () => 0)")])).map (fun r => (r.1.input, r.2.visited)) =
      some (["/a.js"], ["/a.js", "/b.js"]) := by
    decide +kernel
  obtain ⟨⟨s, d⟩, hrun, hsd⟩ := Option.map_eq_some_iff.mp hfound
  simp only [Prod.mk.injEq] at hsd
  obtain ⟨hinput, hvisited⟩ := hsd
  obtain ⟨hs, hd⟩ := of_inlineRun hrun
  have hroot : Spells "/" := ⟨[], by simp, rfl⟩
  obtain ⟨-, hscan, hways⟩ := one_spelling hroot hs (.inr (by simp [hinput]))
  obtain ⟨hspells, -, -⟩ := hscan _ _ d hd
  obtain ⟨-, -, hsources⟩ := hways (Listing.view ∅) "./a.js" "/a.js"
    (.entry List.mem_cons_self rfl)
  have hsame :=
    (Disk.normalize_eq_normalize_iff (p := "/./a.js") (q := "/x/../a.js") rfl rfl).mp rfl
  exact ⟨s, d, hs, hd, hvisited, fun p hp => (hspells p hp).1,
    hsources ("x/../a.js", _) List.mem_cons_self hsame⟩

end Discovery

end DefineBundle
