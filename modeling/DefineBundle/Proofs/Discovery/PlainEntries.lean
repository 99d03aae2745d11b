import DefineBundle.Proofs.Discovery.Repeatable
import DefineBundle.Proofs.Discovery.Spellings
import DefineBundle.Proofs.Path.Relative
import Mathlib.Data.List.TakeWhile

/-!
# Entries that are no patterns

An input without pattern characters is meant as a path. It is put behind the working directory
before anything asks whether it is a pattern, so it is taken as a path just when no directory above
it has such a character in its name. The names that a resolved input ends with are its own; those in
front are left of the working directory.
-/
namespace DefineBundle

open Disk (Descent IsName Spells names pathOf)
open DefineBundle.Path (isAbsolute isAbsolute_join)
open DefineBundle.Path.Glob (entryDirectory isPattern staticBase)
open DefineBundle.Text

namespace Path.Glob

theorem isPattern_eq_any_splitOn (cs : List Char) :
    isPattern cs = (splitOn '/' cs).any isPattern := by
  calc isPattern cs = isPattern (joinWith ['/'] (splitOn '/' cs)) := by rw [joinWith_splitOn]
    _ = (splitOn '/' cs).any isPattern := any_joinWith rfl _

end Path.Glob

namespace Disk

variable {k l : Location} {p : String}

theorem isPattern_pathOf (l : Location) :
    isPattern (pathOf l).toList = l.any fun name => isPattern name.toList := by
  have hbody : isPattern (joinWith ['/'] (l.map String.toList)) = _ := any_joinWith rfl _
  have hslash : isPattern ('/' :: joinWith ['/'] (l.map String.toList)) =
      isPattern (joinWith ['/'] (l.map String.toList)) := rfl
  rw [toList_pathOf, hslash, hbody, List.any_map]
  rfl

theorem isPattern_of_mem_names {name : String} (h : isPattern p.toList = false)
    (hname : name ∈ names p) : isPattern name.toList = false := by
  obtain ⟨s, hs, rfl⟩ := List.mem_map.mp hname
  rw [Path.Glob.isPattern_eq_any_splitOn, List.any_eq_false] at h
  rw [String.toList_ofList]
  simpa using h s hs

/-- The directory of an entry is the one above it as long as no name up to there is a pattern; below
the first one that is, the entry has no directory of its own. -/
theorem entryDirectory_pathOf (hl : ∀ name ∈ l, IsName name) (hne : l ≠ []) :
    entryDirectory (pathOf l) =
      pathOf (l.dropLast.takeWhile fun name => !isPattern name.toList) := by
  rw [entryDirectory]
  split
  · exact staticBase_pathOf hl
  · rename_i hplain
    rw [isPattern_pathOf, List.any_eq_true, not_exists] at hplain
    have hall : l.dropLast.takeWhile (fun name => !isPattern name.toList) = l.dropLast := by
      refine List.takeWhile_eq_self_iff.mpr fun name hname => ?_
      simpa using fun hpattern => hplain name ⟨List.dropLast_subset _ hname, hpattern⟩
    rw [hall]
    obtain ⟨above, last, rfl⟩ := l.eq_nil_or_concat.resolve_left hne
    rw [List.concat_eq_append] at hl ⊢
    rw [List.forall_mem_append] at hl
    rw [Path.parent, parent?_pathOf hl.1 (hl.2 last (by simp)), Option.getD_some,
      List.dropLast_concat]

/-- The directory of an entry is the one above it just when no name up to there is a pattern. -/
theorem entryDirectory_pathOf_eq_parent_iff (hl : ∀ name ∈ l, IsName name) :
    entryDirectory (pathOf l) = Path.parent (pathOf l) ↔
      ∀ name ∈ l.dropLast, isPattern name.toList = false := by
  rcases l.eq_nil_or_concat with rfl | ⟨above, last, rfl⟩
  · exact iff_of_true rfl (by simp)
  · rw [List.concat_eq_append] at hl ⊢
    have hnames := List.forall_mem_append.mp hl
    rw [entryDirectory_pathOf hl (by simp), Path.parent,
      parent?_pathOf hnames.1 (hnames.2 last (by simp)), Option.getD_some, List.dropLast_concat]
    constructor
    · intro he
      have hsub : ∀ name ∈ above.takeWhile fun name => !isPattern name.toList, IsName name :=
        fun name hname => hnames.1 name (List.takeWhile_subset _ hname)
      have hall := pathOf_injective hsub hnames.1 he
      simpa using List.takeWhile_eq_self_iff.mp hall
    · intro h
      have hall : above.takeWhile (fun name => !isPattern name.toList) = above :=
        List.takeWhile_eq_self_iff.mpr fun name hname => by simp [h name hname]
      rw [hall]

/-- A descent keeps names that it starts with, and puts names of its own behind them. -/
theorem Descent.exists_kept {ns : List String} (h : Descent k ns l) :
    ∃ kept own, l = kept ++ own ∧ kept <+: k ∧ ∀ name ∈ own, name ∈ ns := by
  induction h with
  | done => exact ⟨_, [], (List.append_nil _).symm, List.prefix_rfl, by simp⟩
  | stay _ _ ih =>
      obtain ⟨kept, own, he, hkept, hown⟩ := ih
      exact ⟨kept, own, he, hkept, fun name hname => List.mem_cons_of_mem _ (hown name hname)⟩
  | up _ ih =>
      obtain ⟨kept, own, he, hkept, hown⟩ := ih
      exact ⟨kept, own, he, hkept.trans (List.dropLast_prefix _),
        fun name hname => List.mem_cons_of_mem _ (hown name hname)⟩
  | @down k l name ns _ _ ih =>
      obtain ⟨kept, own, he, hkept, hown⟩ := ih
      have hbehind : ∀ n ∈ own, n ∈ name :: ns := fun n hn => List.mem_cons_of_mem _ (hown n hn)
      -- the new name is kept, and then it is one of the path's own
      rcases List.prefix_concat_iff.mp hkept with rfl | hkept
      · refine ⟨k, name :: own, by simpa using he, List.prefix_rfl, ?_⟩
        exact List.forall_mem_cons.mpr ⟨List.mem_cons_self, hbehind⟩
      · exact ⟨kept, own, he, hkept, hbehind⟩

/-- A relative path leads from the directory that it is seen from to the path in full. -/
theorem Descent.normalize_join (h : Descent k (names p) l) (hk : ∀ name ∈ k, IsName name)
    (hp : isAbsolute p = false) : Path.normalize (Path.join (pathOf k) p) = pathOf l := by
  have hsegments : (names p).map String.toList = splitOn '/' p.toList := by
    simp [names, Path.route, Function.comp_def]
  have hwalk := h.foldl_step hk
  rw [hsegments] at hwalk
  rw [Path.normalize, Path.reduce_route_join hk hp, hwalk, List.reverse_reverse]
  rfl

end Disk

namespace Options

/-- The names of a path seen from a directory: first names that the directory has in front, then
names of the path's own. -/
theorem exists_names_resolvePath {directory : String} (h : Spells directory) (path : String) :
    ∃ above kept own, pathOf above = directory ∧ kept <+: above ∧
      (∀ name ∈ kept ++ own, IsName name) ∧ (∀ name ∈ own, name ∈ names path) ∧
      resolvePath directory path = pathOf (kept ++ own) := by
  obtain ⟨above, habove, rfl⟩ := h
  by_cases hpath : isAbsolute path = true
  · obtain ⟨l, hl⟩ := Disk.exists_denotes path
    obtain ⟨kept, own, rfl, hkept, hown⟩ := Descent.exists_kept hl
    obtain rfl := List.prefix_nil.mp hkept
    refine ⟨above, [], own, rfl, List.nil_prefix, hl.isName (by simp), hown, ?_⟩
    rw [resolvePath, Path.join, hpath, Bool.true_or, if_pos rfl]
    exact (hl.pathOf_eq hpath).symm
  · obtain ⟨l, hl⟩ := Disk.exists_descent (Disk.names_noSlash path) above
    obtain ⟨kept, own, rfl, hkept, hown⟩ := Descent.exists_kept hl
    exact ⟨above, kept, own, rfl, hkept, hl.isName habove, hown,
      hl.normalize_join habove (Bool.eq_false_iff.mpr hpath)⟩

end Options

namespace Discovery

/-- An input stands for itself, whatever the files are, just when it is no pattern. -/
theorem expand_eq_self_iff {input : String} :
    (∀ view d, expand view d input = .ok ([input], d)) ↔ isPattern input.toList = false := by
  constructor
  · intro h
    have hempty := h (Listing.view ∅) (start .empty)
    unfold expand at hempty
    split at hempty
    · have hfiles : Listing.below ∅ (staticBase input) = [] := rfl
      have hnone : matching input [] = [] := by
        rw [matching, List.map_nil, List.filter_nil, List.mergeSort_nil]
      simp only [Listing.view, hfiles, hnone] at hempty
      cases hempty
    · rename_i hplain
      exact Bool.eq_false_iff.mpr hplain
  · intro hplain view d
    rw [expand, hplain, if_neg Bool.false_ne_true]

/-- An input without pattern characters is resolved to a path whose last names are its own and whose
first names are left of the working directory. Whatever the files are, it stands for that path alone
just when no name left of the working directory is a pattern, and the base directory taken from it
is the one above it just when no name up to there is one. -/
theorem plain_entry_iff {o : Options} {current : String} {s : Settings} {input : String}
    (hcurrent : Spells current) (hs : o.settings current = .ok s)
    (hinput : input ∈ o.inputs.elim [] Inputs.patterns) (hplain : isPattern input.toList = false) :
    let p := Options.resolvePath (o.directory current) input
    p ∈ s.input ∧ ∃ above kept own, pathOf above = o.directory current ∧ kept <+: above ∧
      (∀ name ∈ kept ++ own, IsName name) ∧ p = pathOf (kept ++ own) ∧
      (∀ name ∈ own, isPattern name.toList = false) ∧
      ((∀ view d, expand view d p = .ok ([p], d)) ↔
        ∀ name ∈ kept, isPattern name.toList = false) ∧
      (o.baseDirectory = none → (o.inputs.elim [] Inputs.patterns).head? = some input →
        (s.baseDirectory = Path.parent p ↔
          ∀ name ∈ (kept ++ own).dropLast, isPattern name.toList = false)) := by
  dsimp only
  have hresolved := Options.resolved_of_settings hs
  have hdirectory : Spells (o.directory current) := Options.spells_directory hcurrent
  obtain ⟨above, kept, own, habove, hkept, hnames, hown, hp⟩ :=
    Options.exists_names_resolvePath hdirectory input
  have hownPlain : ∀ name ∈ own, isPattern name.toList = false := fun name hname =>
    Disk.isPattern_of_mem_names hplain (hown name hname)
  refine ⟨hresolved.input ▸ List.mem_map_of_mem hinput, above, kept, own, habove, hkept, hnames, hp,
    hownPlain, ?_, fun hbase hfirst => ?_⟩
  · rw [expand_eq_self_iff, hp, Disk.isPattern_pathOf, List.any_append, Bool.or_eq_false_iff,
      and_iff_left (List.any_eq_false.mpr fun name hname => by simp [hownPlain name hname]),
      List.any_eq_false]
    simp only [Bool.not_eq_true]
  · have hhead : s.input.head? = some (Options.resolvePath (o.directory current) input) := by
      rw [hresolved.input, List.head?_map, hfirst, Option.map_some]
    have hentry : s.baseDirectory = entryDirectory (pathOf (kept ++ own)) := by
      rw [hresolved.base, Options.base, hbase, hhead, hp]
      rfl
    rw [hentry, hp]
    exact Disk.entryDirectory_pathOf_eq_parent_iff hnames

/-- A build in a directory with brackets in its name. -/
def bracketedOptions (input : String) : Options :=
  { inlineOptions [input] [(input, "define('a', [], () => 0)")] with
    workingDirectory := some "/work/p[1]" }

/-- An input that leaves the directory with the brackets is taken as it is. -/
theorem plain_entry_iff_leaving : ∃ s, (bracketedOptions "../src/a.js").settings "/" = .ok s ∧
    "/work/src/a.js" ∈ s.input ∧
    (∀ view d, expand view d "/work/src/a.js" = .ok (["/work/src/a.js"], d)) ∧
    s.baseDirectory = "/work/src" := by
  have hroot : Spells "/" := ⟨[], by simp, rfl⟩
  obtain ⟨s, hs⟩ : ∃ s, (bracketedOptions "../src/a.js").settings "/" = .ok s := ⟨_, rfl⟩
  have hpath : Options.resolvePath ((bracketedOptions "../src/a.js").directory "/") "../src/a.js" =
      "/work/src/a.js" := by decide
  obtain ⟨hmem, above, kept, own, -, -, -, hp, -, hself, hbase⟩ :=
    plain_entry_iff hroot hs List.mem_cons_self (by decide)
  have hplain : ∀ name ∈ kept ++ own, isPattern name.toList = false := by
    have hany : isPattern (pathOf (kept ++ own)).toList = false := by
      rw [← hp, hpath]
      decide
    rw [Disk.isPattern_pathOf, List.any_eq_false] at hany
    simpa using hany
  rw [hpath] at hmem hself hbase
  refine ⟨s, hs, hmem, hself.mpr fun name hname => hplain name (List.mem_append_left _ hname), ?_⟩
  rw [(hbase rfl rfl).mpr fun name hname => hplain name (List.dropLast_subset _ hname)]
  decide

/-- An input inside the directory with the brackets is taken for a pattern. It does not stand for
itself, and its directory is not the one that it is in. -/
theorem plain_entry_bracketed : ∃ s, (bracketedOptions "src/a.js").settings "/" = .ok s ∧
    isPattern "src/a.js".toList = false ∧ s.input = ["/work/p[1]/src/a.js"] ∧
    (¬ ∀ view d, expand view d "/work/p[1]/src/a.js" = .ok (["/work/p[1]/src/a.js"], d)) ∧
    s.baseDirectory ≠ Path.parent "/work/p[1]/src/a.js" := by
  obtain ⟨s, hs⟩ : ∃ s, (bracketedOptions "src/a.js").settings "/" = .ok s := ⟨_, rfl⟩
  have hinput : s.input = ["/work/p[1]/src/a.js"] := by
    rw [(Options.resolved_of_settings hs).input]
    decide
  have hbase : s.baseDirectory = "/work" := by
    rw [(Options.resolved_of_settings hs).base, hinput]
    decide
  refine ⟨s, hs, by decide, hinput, ?_, hbase ▸ by decide⟩
  rw [expand_eq_self_iff]
  decide

end Discovery

end DefineBundle
