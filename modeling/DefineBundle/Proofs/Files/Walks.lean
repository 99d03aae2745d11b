import DefineBundle.Proofs.Files.Trees
import DefineBundle.Proofs.Lists.Traversals
import Mathlib.Algebra.Group.Nat.Defs
import Mathlib.Data.List.Nodup
import Mathlib.Data.List.Perm.Subperm

/-!
# What a walk finds

On a disk of directories and files with one name each, a walk from a directory finds each file below
it once, under the path that spells its location. So a file that is written, at another place or
anew, adds at most itself.
-/
namespace DefineBundle.Disk

open FileSystem (others)

variable {d : Disk} {n : Nat} {k l : Location}

/-- The locations of the files at or below a location. -/
def filesFrom (d : Disk) (descend : Location → List Location) (l : Location) : List Location :=
  match d.node? l with
  | some (.file _) => [l]
  | some .directory => descend l
  | _ => []

/-- The locations of the files below a location, at most `n` names down. -/
def filesBelow (d : Disk) : Nat → Location → List Location
  | 0, _ => []
  | n + 1, l => (d.children l).flatMap fun name => d.filesFrom (filesBelow d n) (l ++ [name])

theorem mem_children_iff {name : String} :
    name ∈ d.children l ↔ ∃ n, d.node? (l ++ [name]) = some n := by
  have hkey : ∀ k : Location, (if k.dropLast == l then k.getLast? else none) = some name ↔
      k = l ++ [name] := by
    intro k
    rcases k.eq_nil_or_concat with rfl | ⟨k, last, rfl⟩
    · simp
    · rw [List.concat_eq_append]
      by_cases hk : k = l
      · simp [hk]
      · simp [hk]
  unfold children
  simp only [List.mem_mergeSort, List.mem_filterMap, hkey]
  constructor
  · rintro ⟨⟨k, e⟩, hmem, rfl⟩
    exact exists_node?_of_mem hmem
  · rintro ⟨n, hnode⟩
    obtain ⟨e, hmem, -⟩ := exists_mem_of_node? (by simp) hnode
    exact ⟨(l ++ [name], e), hmem, rfl⟩

theorem nodup_children (hd : (d.entries.map Prod.fst).Nodup) (l : Location) :
    (d.children l).Nodup := by
  unfold children
  rw [(List.mergeSort_perm _ _).nodup_iff]
  have hmap : (d.entries.filterMap fun e => if e.1.dropLast == l then e.1.getLast? else none) =
      (d.entries.map Prod.fst).filterMap
        fun k => if k.dropLast == l then k.getLast? else none := by
    rw [List.filterMap_map]
    rfl
  rw [hmap]
  refine hd.filterMap fun k k' name hk hk' => ?_
  simp only [beq_iff_eq, Option.mem_def, ite_eq_iff, reduceCtorEq, and_false, or_false] at hk hk'
  rw [← List.dropLast_append_getLast? name hk.2, ← List.dropLast_append_getLast? name hk'.2, hk.1,
    hk'.1]

theorem Rooted.length_le (hd : d.Rooted) {rest : Location} {m : Node}
    (h : d.node? (l ++ rest) = some m) : rest.length ≤ d.entries.length := by
  have hinits : ∀ i ∈ List.range rest.length, l ++ rest.take (i + 1) ∈ d.entries.map Prod.fst := by
    intro i hi
    have hlt := List.mem_range.mp hi
    have hnode : ∃ m', d.node? (l ++ rest.take (i + 1)) = some m' := by
      rw [← List.take_append_drop (i + 1) rest, ← List.append_assoc] at h
      by_cases hnil : rest.drop (i + 1) = []
      · rw [hnil, List.append_nil] at h
        exact ⟨m, h⟩
      · exact ⟨_, hd.above_append hnil h⟩
    obtain ⟨m', hm'⟩ := hnode
    have hne : l ++ rest.take (i + 1) ≠ [] := by
      intro he
      have hlength := congrArg List.length (List.append_eq_nil_iff.mp he).2
      rw [List.length_take, List.length_nil] at hlength
      omega
    obtain ⟨e, hmem, -⟩ := exists_mem_of_node? hne hm'
    exact List.mem_map_of_mem hmem
  have hnodup : ((List.range rest.length).map fun i => l ++ rest.take (i + 1)).Nodup := by
    refine List.nodup_range.map_on fun i hi j hj he => ?_
    rw [List.mem_range] at hi hj
    have hlength := congrArg List.length (List.append_cancel_left he)
    rw [List.length_take, List.length_take] at hlength
    omega
  have hsub : ((List.range rest.length).map fun i => l ++ rest.take (i + 1)) ⊆
      d.entries.map Prod.fst := by
    intro k hk
    obtain ⟨i, hi, rfl⟩ := List.mem_map.mp hk
    exact hinits i hi
  simpa using (hnodup.subperm hsub).length_le

section
variable (hd : d.IsTree)
include hd

/-- A walk finds the files below a location, under the paths that spell them. -/
theorem IsTree.walkFrom_eq (n : Nat) (outer : List Station) (hl : ∀ name ∈ l, IsName name) :
    d.walkFrom n outer ⟨l, pathOf l⟩ = .ok ((d.filesBelow n l).map pathOf) := by
  induction n generalizing outer l with
  | zero => rfl
  | succ n ih =>
      have hentry : ∀ name ∈ d.children l,
          d.walkEntry (d.walkFrom n) outer ⟨l, pathOf l⟩ name =
            .ok ((d.filesFrom (d.filesBelow n) (l ++ [name])).map pathOf) := by
        intro name hname
        obtain ⟨m, hnode⟩ := mem_children_iff.mp hname
        have hnames := hd.named hnode
        unfold walkEntry filesFrom
        dsimp only
        rw [join_pathOf hl (hnames name (by simp)), hnode]
        cases m with
        | file f => rfl
        | device v => exact absurd hnode (hd.node?_ne_device _ v)
        | link target => exact absurd hnode (hd.unlinked _ target)
        | directory => exact ih _ hnames
      have hlists : (d.children l).mapM (d.walkEntry (d.walkFrom n) outer ⟨l, pathOf l⟩) =
          .ok ((d.children l).map fun name =>
            (d.filesFrom (d.filesBelow n) (l ++ [name])).map pathOf) :=
        mapM_eq_ok_map hentry
      refine bind_eq_ok hlists ?_
      rw [filesBelow, List.map_flatMap, List.flatMap]
      rfl

theorem IsTree.mem_filesBelow_iff : k ∈ d.filesBelow n l ↔
    (∃ f, d.node? k = some (.file f)) ∧
      ∃ rest, rest ≠ [] ∧ rest.length ≤ n ∧ k = l ++ rest := by
  induction n generalizing l with
  | zero =>
      refine iff_of_false List.not_mem_nil ?_
      rintro ⟨-, rest, hne, hlength, -⟩
      exact hne (List.eq_nil_of_length_eq_zero (Nat.le_zero.mp hlength))
  | succ n ih =>
      rw [filesBelow, List.mem_flatMap]
      constructor
      · rintro ⟨name, hname, hk⟩
        unfold filesFrom at hk
        split at hk
        · rename_i f hfile
          obtain rfl := List.mem_singleton.mp hk
          exact ⟨⟨f, hfile⟩, [name], by simp, by simp, rfl⟩
        · obtain ⟨hfile, rest, -, hlength, rfl⟩ := ih.mp hk
          exact ⟨hfile, name :: rest, by simp, Nat.succ_le_succ hlength, by simp⟩
        · cases hk
      · rintro ⟨⟨f, hfile⟩, rest, hne, hlength, rfl⟩
        obtain ⟨name, rest, rfl⟩ := List.exists_cons_of_ne_nil hne
        by_cases hnil : rest = []
        · subst hnil
          refine ⟨name, mem_children_iff.mpr ⟨_, hfile⟩, ?_⟩
          rw [filesFrom, hfile]
          exact List.mem_singleton_self _
        · have hdirectory : d.node? (l ++ [name]) = some .directory :=
            hd.rooted.above_append hnil (by rwa [← List.append_cons])
          refine ⟨name, mem_children_iff.mpr ⟨_, hdirectory⟩, ?_⟩
          rw [filesFrom, hdirectory]
          exact ih.mpr ⟨⟨f, hfile⟩, rest, hnil, Nat.le_of_succ_le_succ hlength,
            List.append_cons _ _ _⟩

theorem IsTree.nodup_filesBelow (n : Nat) (l : Location) : (d.filesBelow n l).Nodup := by
  induction n generalizing l with
  | zero => exact List.nodup_nil
  | succ n ih =>
      rw [filesBelow, List.nodup_flatMap]
      -- what is found under a name starts with it
      have hunder : ∀ name, ∀ k ∈ d.filesFrom (d.filesBelow n) (l ++ [name]),
          ∃ rest, k = l ++ name :: rest := by
        intro name k hk
        unfold filesFrom at hk
        split at hk
        · exact ⟨[], List.mem_singleton.mp hk⟩
        · obtain ⟨-, rest, -, -, rfl⟩ := hd.mem_filesBelow_iff.mp hk
          exact ⟨rest, by simp⟩
        · cases hk
      refine ⟨fun name _ => ?_, (nodup_children hd.nodup l).imp fun hne => ?_⟩
      · unfold filesFrom
        split
        · exact List.nodup_singleton _
        · exact ih _
        · exact List.nodup_nil
      · intro k hk hk'
        obtain ⟨rest, rfl⟩ := hunder _ k hk
        obtain ⟨rest', he⟩ := hunder _ _ hk'
        exact hne (List.cons.inj (List.append_cancel_left he)).1

/-- A walk from a path in normal form finds each file below its location once, and no other. -/
theorem IsTree.exists_walk (hl : ∀ name ∈ l, IsName name) : ∃ found : List Location,
    d.walk (pathOf l) = .ok (found.map pathOf) ∧ found.Nodup ∧
      ∀ k, k ∈ found ↔ Fits l ∧ (∃ f, d.node? k = some (.file f)) ∧
        ∃ rest, rest ≠ [] ∧ k = l ++ rest := by
  unfold walk
  by_cases hdirectory : Fits l ∧ d.node? l = some .directory
  · have hlook : d.lookUp true (pathOf l) = .ok (l, .directory) :=
      (hd.lookUp_pathOf_iff hl).mpr ⟨hdirectory.1, rfl, hdirectory.2⟩
    rw [hlook]
    refine ⟨_, hd.walkFrom_eq _ _ hl, hd.nodup_filesBelow _ _, fun k => ?_⟩
    rw [hd.mem_filesBelow_iff]
    constructor
    · rintro ⟨hfile, rest, hne, -, rfl⟩
      exact ⟨hdirectory.1, hfile, rest, hne, rfl⟩
    · rintro ⟨-, ⟨f, hfile⟩, rest, hne, rfl⟩
      have hdepth := hd.rooted.length_le hfile
      have hfuel : d.entries.length + 2 ≤ (d.entries.length + 2) ^ 2 :=
        Nat.le_self_pow (by decide) _
      exact ⟨⟨f, hfile⟩, rest, hne, Nat.le_trans hdepth (Nat.le_of_add_right_le hfuel), rfl⟩
  · refine ⟨[], ?_, List.nodup_nil, fun k => ?_⟩
    · split
      · rename_i l' hlook
        obtain ⟨hfits, -, hnode⟩ := (hd.lookUp_pathOf_iff hl).mp hlook
        exact absurd ⟨hfits, hnode⟩ hdirectory
      · rfl
    · refine iff_of_false List.not_mem_nil ?_
      rintro ⟨hfits, ⟨f, hfile⟩, rest, hne, rfl⟩
      exact hdirectory ⟨hfits, hd.rooted.above_append hne hfile⟩

/-- On such a disk outputs lead to files of their own. -/
theorem IsTree.isolates {s : Settings} {asked : List String}
    (hpaths : ∀ p ∈ s.outputs.paths, Spells p) (hasked : ∀ q ∈ asked, Spells q)
    (hinputs : ∀ input ∈ s.input, Spells input) : fileSystem.Isolates s asked d where
  toSeparates := hd.separates hpaths
  sameAt hat hp hw q hq hne :=
    (hd.of_wrote hpaths hat).sameAt_of_writeText (hpaths _ hp) (hasked q hq) hne hw
  walked {files files' p text} hat hp hw input hinput _ found hfound := by
    have htree := hd.of_wrote hpaths hat
    obtain ⟨lp, hlp, rfl⟩ := hpaths p hp
    dsimp only [fileSystem] at hw
    obtain ⟨htree', -, hfiles⟩ := htree.writeText hlp hw
    obtain ⟨l, hl, he⟩ := spells_staticBase (hinputs input hinput)
    obtain ⟨ls, hwalk, hnodup, hmem⟩ := htree.exists_walk hl
    obtain ⟨ls', hwalk', hnodup', hmem'⟩ := htree'.exists_walk hl
    change files.walk _ = _ at hfound
    rw [← he] at hfound ⊢
    obtain rfl : ls.map pathOf = found := Except.ok.inj (hwalk.symm.trans hfound)
    refine ⟨_, hwalk', ?_⟩
    have hnamed : ∀ k, k ∈ ls ∨ k ∈ ls' → ∀ name ∈ k, IsName name := by
      rintro k (hk | hk)
      · obtain ⟨-, ⟨f, hf⟩, -⟩ := (hmem k).mp hk
        exact htree.named hf
      · obtain ⟨-, ⟨f, hf⟩, -⟩ := (hmem' k).mp hk
        exact htree'.named hf
    have hothers : ∀ ks : List Location, (∀ k ∈ ks, ∀ name ∈ k, IsName name) →
        others (pathOf lp) (ks.map pathOf) = (ks.filter fun k => k ≠ lp).map pathOf := by
      intro ks hks
      have hnormal : (ks.map pathOf).map Path.normalize = ks.map pathOf := by
        rw [List.map_map]
        exact List.map_congr_left fun k hk => normalize_pathOf (hks k hk)
      rw [others, hnormal, List.filter_map]
      refine congrArg _ (List.filter_congr fun k hk => ?_)
      have hinj : pathOf k = pathOf lp ↔ k = lp :=
        ⟨pathOf_injective (hks k hk) hlp, congrArg pathOf⟩
      simp [hinj]
    rw [hothers ls' fun k hk => hnamed k (.inr hk), hothers ls fun k hk => hnamed k (.inl hk)]
    refine List.Perm.map _
      ((List.perm_ext_iff_of_nodup (hnodup'.filter _) (hnodup.filter _)).mpr ?_)
    intro k
    simp only [List.mem_filter, hmem, hmem', hfiles, decide_eq_true_eq]
    constructor
    all_goals
      rintro ⟨⟨hfits, ⟨f, hf⟩, hbelow⟩, hne⟩
      simp only [if_neg hne] at hf ⊢
      exact ⟨⟨hfits, ⟨f, hf⟩, hbelow⟩, hne⟩

end

/-- Seen from an absolute directory, outputs and inputs are absolute. -/
theorem spells_of_settings {o : Options} {current : String} {s : Settings}
    (hs : o.settings current = .ok s) (h : Path.isAbsolute (o.directory current) = true) :
    (∀ p ∈ s.outputs.paths, Spells p) ∧ ∀ input ∈ s.input, Spells input := by
  have hresolve : ∀ p, Spells (Options.resolvePath (o.directory current) p) := fun p =>
    spells_of_isNormal (Path.isNormal_normalize _)
      (Path.isAbsolute_normalize (Path.isAbsolute_join h p))
  constructor
  · intro p hp
    obtain ⟨q, rfl⟩ := Options.exists_resolvePath_of_mem_paths hs hp
    exact hresolve q
  · intro input hmem
    rw [(Options.settings_eq_ok hs).1] at hmem
    obtain ⟨pattern, -, rfl⟩ := List.mem_map.mp hmem
    exact hresolve pattern

end DefineBundle.Disk
