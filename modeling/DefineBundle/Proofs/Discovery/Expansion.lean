import DefineBundle.Proofs.Files.Finding
import DefineBundle.Proofs.Files.Isolation
import Mathlib.Data.List.TakeWhile

/-!
# What patterns expand to

A pattern is expanded by a walk from its static base. Every path that it matches starts with the
names of the static base, so nothing is lost: the entries are all the files that match, wherever
they are, in order.
-/
namespace DefineBundle.Discovery

open DefineBundle.Disk (IsName Spells pathOf)
open DefineBundle.Path (isAbsolute isBelow route)
open DefineBundle.Path.Glob (isPattern matchesPath staticBase syntaxChars)
open DefineBundle.Text

/-- The names of a static base: the longest start of the names of a pattern, short of all of them,
without a pattern among it. -/
structure IsStaticRun (run names : Location) : Prop where
  start : run <+: names
  proper : run ≠ names
  static : ∀ name ∈ run, isPattern name.toList = false
  longest : ∀ other, other <+: names → other ≠ names →
    (∀ name ∈ other, isPattern name.toList = false) → other <+: run

theorem isStaticRun_takeWhile {names : Location} (h : names ≠ []) :
    IsStaticRun (names.dropLast.takeWhile fun name => !isPattern name.toList) names where
  start := (List.takeWhile_prefix _).trans (List.dropLast_prefix _)
  proper he := by
    have hle := (List.takeWhile_prefix (fun name => !isPattern name.toList)
      (l := names.dropLast)).length_le
    have hpos := List.length_pos_iff.mpr h
    rw [he, List.length_dropLast] at hle
    omega
  static name hname := by simpa using List.mem_takeWhile_imp hname
  longest other hstart hproper hstatic := by
    obtain ⟨more, rfl⟩ := hstart
    have hmore : more ≠ [] := by
      rintro rfl
      exact hproper (List.append_nil _).symm
    rw [List.dropLast_append_of_ne_nil hmore, List.takeWhile_append_of_pos
      fun name hname => by simp [hstatic name hname]]
    exact List.prefix_append _ _

theorem exists_staticRun {pattern : String} (h : Spells pattern)
    (hpattern : isPattern pattern.toList = true) : ∃ run names, (∀ name ∈ names, IsName name) ∧
      pathOf names = pattern ∧ pathOf run = staticBase pattern ∧ IsStaticRun run names := by
  obtain ⟨names, hnames, rfl⟩ := h
  have hne : names ≠ [] := by
    rintro rfl
    exact absurd hpattern (by decide)
  exact ⟨_, names, hnames, rfl, (Disk.staticBase_pathOf hnames).symm, isStaticRun_takeWhile hne⟩

/-- A path that goes on behind the names of a directory is below it. -/
theorem prefix_of_toList_pathOf {run names : Location} (hrun : ∀ name ∈ run, IsName name)
    (hnames : ∀ name ∈ names, IsName name) (hne : run ≠ []) {more : List Char}
    (h : (pathOf names).toList = (pathOf run).toList ++ '/' :: more) :
    run <+: names ∧ run ≠ names := by
  have hsplit := congrArg (splitOn '/') h
  have hsegments : ∀ {l : Location}, (∀ name ∈ l, IsName name) → l ≠ [] →
      splitOn '/' (pathOf l).toList = [] :: l.map String.toList := by
    intro l hl hne
    have hroute := congrArg Path.Route.segments (Disk.route_pathOf hl)
    rwa [if_neg hne] at hroute
  have hfull : names ≠ [] := by
    rintro rfl
    have hlength := congrArg List.length h
    simp [Disk.toList_pathOf, joinWith] at hlength
  rw [splitOn_append_cons, hsegments hrun hne, hsegments hnames hfull, List.cons_append,
    List.cons.injEq] at hsplit
  constructor
  · exact (List.prefix_map_iff_of_injective fun _ _ => String.toList_inj.mp).mp
      ⟨_, hsplit.2.symm⟩
  · rintro rfl
    have hnil := List.self_eq_append_right.mp hsplit.2
    rw [splitOn_eq] at hnil
    exact List.splitOn_ne_nil '/' more hnil

/-- The text of a static run is no pattern syntax, but for backslashes. -/
theorem notMem_syntaxChars {run : Location}
    (hrun : ∀ name ∈ run, isPattern name.toList = false) {c : Char} (hbackslash : c ≠ '\\')
    (h : c ∈ (pathOf run).toList ++ ['/']) : c ∉ syntaxChars := by
  have hslash : '/' ∉ syntaxChars := by decide
  rw [Disk.toList_pathOf, List.mem_append, List.mem_cons, List.mem_singleton] at h
  rcases h with (rfl | h) | rfl
  · exact hslash
  · rcases mem_joinWith h with h | ⟨s, hs, h⟩
    · exact List.mem_singleton.mp h ▸ hslash
    · obtain ⟨name, hname, rfl⟩ := List.mem_map.mp hs
      have hstatic := List.any_eq_false.mp (hrun name hname) c h
      simp only [Bool.or_eq_true, beq_iff_eq, not_or] at hstatic
      simp [syntaxChars, hstatic, hbackslash]
  · exact hslash

/-- What a pattern without backslashes matches is below its static base. -/
theorem isBelow_of_matchesPath {pattern p : String} (h : Spells pattern)
    (hpattern : isPattern pattern.toList = true) (hplain : '\\' ∉ pattern.toList) (hp : Spells p)
    (hmatch : matchesPath pattern p = true) :
    (p ≠ staticBase pattern ∨ staticBase pattern = "/") ∧
      isBelow (staticBase pattern) p = true := by
  obtain ⟨run, names, hnames, rfl, hbase, hrun⟩ := exists_staticRun h hpattern
  obtain ⟨found, hfound, rfl⟩ := hp
  obtain ⟨rest, rfl⟩ := hrun.start
  have hnamed : ∀ name ∈ run, IsName name := (List.forall_mem_append.mp hnames).1
  rw [← hbase, Disk.isBelow_pathOf_iff hnamed hfound]
  by_cases hnil : run = []
  · subst hnil
    exact ⟨.inr rfl, List.nil_prefix⟩
  · have hrest : rest ≠ [] := by
      rintro rfl
      exact hrun.proper (List.append_nil _).symm
    obtain ⟨more, hmore⟩ := Disk.exists_toList_pathOf hnil hrest
    have hstart : (pathOf run).toList ++ ['/'] <+: (pathOf (run ++ rest)).toList :=
      ⟨more, by rw [hmore, List.append_assoc, List.singleton_append]⟩
    have hliteral : ∀ c ∈ (pathOf run).toList ++ ['/'], c ∉ syntaxChars := fun c hc =>
      notMem_syntaxChars hrun.static
        (fun he => hplain (hstart.subset (he ▸ hc))) hc
    obtain ⟨tail, htail⟩ :=
      Path.Glob.prefix_of_matchesPath (Disk.isAbsolute_pathOf _) hstart hliteral hmatch
    rw [List.append_assoc, List.singleton_append] at htail
    obtain ⟨hbelow, hne⟩ := prefix_of_toList_pathOf hnamed hfound hnil htail.symm
    exact ⟨.inl fun he => hne (Disk.pathOf_injective hfound hnamed he).symm, hbelow⟩

section
variable {view : FileView} {pattern : String} {found : List String}

theorem pairwise_lt_matching (hnodup : (found.map Path.normalize).Nodup) :
    (matching pattern found).Pairwise (· < ·) := by
  have hdistinct : (matching pattern found).Nodup :=
    (List.mergeSort_perm _ _).nodup_iff.mpr (hnodup.filter _)
  refine ((pairwise_mergeSort _).and hdistinct).imp fun ⟨hle, hne⟩ => ?_
  exact String.not_le.mp fun hge => hne (String.le_antisymm hle hge)

/-- Of the files below the static base those match that match of all files. -/
theorem mem_matching_iff (hview : view.FindsFiles) (hspells : Spells pattern)
    (hpattern : isPattern pattern.toList = true) (hplain : '\\' ∉ pattern.toList)
    (hfound : view.walk (staticBase pattern) = .ok found) {p : String} :
    p ∈ matching pattern found ↔
      Spells p ∧ view.isFile p = true ∧ matchesPath pattern p = true := by
  have hbase := Disk.spells_staticBase hspells
  rw [matching, List.mem_mergeSort, List.mem_filter, hview.map_normalize hbase hfound]
  constructor
  · rintro ⟨hmem, hmatch⟩
    have hp := hview.spells hbase hfound hmem
    obtain ⟨hne, -⟩ := isBelow_of_matchesPath hspells hpattern hplain hp hmatch
    exact ⟨hp, ((hview.mem_iff hbase hfound hne).mp hmem).2.1, hmatch⟩
  · rintro ⟨hp, hfile, hmatch⟩
    obtain ⟨hne, hbelow⟩ := isBelow_of_matchesPath hspells hpattern hplain hp hmatch
    exact ⟨(hview.mem_iff hbase hfound hne).mpr ⟨hp, hfile, hbelow⟩, hmatch⟩

end

/-- A pattern without backslashes expands to all files that it matches, wherever they are, in order
and each once, unless its static base cannot be walked. This is the longest run of directories that
the pattern starts with, short of all its names, whose names are no patterns. -/
theorem expand_pattern {view : FileView} (hview : view.FindsFiles) {pattern : String}
    (hspells : Spells pattern) (hpattern : isPattern pattern.toList = true)
    (hplain : '\\' ∉ pattern.toList) (d : Discovery) :
    (∃ run names, (∀ name ∈ names, IsName name) ∧ pathOf names = pattern ∧
      pathOf run = staticBase pattern ∧ IsStaticRun run names) ∧
    (∀ e, view.walk (staticBase pattern) = .error e →
      expand view d pattern = d.halt (.inaccessible (staticBase pattern) e)) ∧
    ∀ found, view.walk (staticBase pattern) = .ok found →
      ∃ es d', expand view d pattern = .ok (es, d') ∧ es.Pairwise (· < ·) ∧
        ∀ p, p ∈ es ↔ Spells p ∧ view.isFile p = true ∧ matchesPath pattern p = true := by
  refine ⟨exists_staticRun hspells hpattern, fun e he => ?_, fun found hfound => ?_⟩
  · simp only [expand, hpattern, if_true, he]
  · have hbase := Disk.spells_staticBase hspells
    have hnodup : (found.map Path.normalize).Nodup := by
      rw [hview.map_normalize hbase hfound]
      exact hview.nodup hbase hfound
    have hentries : ∃ d', expand view d pattern = .ok (matching pattern found, d') := by
      simp only [expand, hpattern, if_true, hfound]
      split
      · rename_i hnone
        exact ⟨_, by rw [hnone]⟩
      · exact ⟨d, rfl⟩
    obtain ⟨d', hd'⟩ := hentries
    exact ⟨_, d', hd', pairwise_lt_matching hnodup,
      fun p => mem_matching_iff hview hspells hpattern hplain hfound⟩

/-- Two files below a directory and one beside it. -/
def nestedFiles : Listing :=
  Assoc.ofList [("/p/src/b/c.js", ⟨some "", 0⟩), ("/p/src/a.js", ⟨some "", 0⟩),
    ("/p/test.js", ⟨some "", 0⟩)]

/-- The file beside the directory is not among the entries. -/
theorem expand_pattern_nested : nestedFiles.view.FindsFiles ∧ Spells "/p/src/**/*.js" ∧
    isPattern "/p/src/**/*.js".toList = true ∧ '\\' ∉ "/p/src/**/*.js".toList ∧
    ∃ es d', expand nestedFiles.view (start .empty) "/p/src/**/*.js" = .ok (es, d') ∧
      "/p/src/b/c.js" ∈ es ∧ "/p/test.js" ∉ es := by
  have hview : nestedFiles.view.FindsFiles := Listing.findsFiles (by decide)
  have hspells : Spells "/p/src/**/*.js" := by decide
  refine ⟨hview, hspells, by decide, by decide, ?_⟩
  obtain ⟨-, -, hwalk⟩ := expand_pattern hview hspells (by decide) (by decide) (start .empty)
  obtain ⟨es, d', hes, -, hmem⟩ := hwalk _ rfl
  refine ⟨es, d', hes, (hmem _).mpr ⟨by decide, by decide, by decide⟩, fun h => ?_⟩
  exact absurd ((hmem _).mp h).2.2 (by decide)

end DefineBundle.Discovery
