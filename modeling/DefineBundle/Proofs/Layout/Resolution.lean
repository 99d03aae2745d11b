import DefineBundle.Proofs.Layout.Owners
import DefineBundle.Proofs.Path.Relative

/-!
# The files of ids

An id without its root namespace is read as a path: every separator becomes a slash, and the last
segment gets the extension. Each segment that is not empty is a name on the way, so the way only
goes down. It starts at the base directory unless a separator comes first; then it starts at the
root, and the base directory has no part in it.
-/
namespace DefineBundle

open DefineBundle.Disk (IsName Spells)
open DefineBundle.Path (Route isAbsolute join route step)
open DefineBundle.Text

namespace Path

/-- Whatever is joined to a directory is walked on from the same segments. -/
theorem exists_route_join (base : String) : ∃ above, ∀ p, isAbsolute p = false →
    route (join base p) = ⟨isAbsolute base, above ++ splitOn '/' p.toList⟩ := by
  by_cases hempty : base = ""
  · refine ⟨[], fun p hp => ?_⟩
    simpa [hempty, join, route, isAbsolute] using hp
  · obtain ⟨c, cs, hcs⟩ := List.exists_cons_of_ne_nil
      (l := base.toList) (by simpa using hempty)
    have hroot : ∀ more, isAbsolute (String.ofList (base.toList ++ more)) = isAbsolute base :=
      fun more => by simp [isAbsolute, hcs]
    by_cases hslash : base.toList.getLast? = some '/'
    · obtain ⟨front, hfront⟩ := List.getLast?_eq_some_iff.mp hslash
      refine ⟨splitOn '/' front, fun p hp => ?_⟩
      have hjoin : join base p = String.ofList (base.toList ++ p.toList) := by
        simp [join, hp, hempty, hslash]
      rw [hjoin, route, hroot, String.toList_ofList, hfront, List.append_assoc,
        List.singleton_append, splitOn_append_cons]
    · refine ⟨splitOn '/' base.toList, fun p hp => ?_⟩
      have hjoin : join base p = String.ofList (base.toList ++ '/' :: p.toList) := by
        simp [join, hp, hempty, hslash, String.append_assoc]
      rw [hjoin, route, hroot, String.toList_ofList, splitOn_append_cons]

theorem step_of_isName {fromRoot : Bool} {s : List Char} (h : IsName (String.ofList s))
    (walked : List (List Char)) : step fromRoot walked s = s :: walked := by
  have hproper := h.proper
  have hup := h.toList_ne_up
  rw [String.toList_ofList] at hproper hup
  exact step_of_isProper hproper hup walked

theorem foldl_step_of_isName {fromRoot : Bool} {ss : List (List Char)}
    (h : ∀ s ∈ ss, s ≠ [] → IsName (String.ofList s)) (walked : List (List Char)) :
    ss.foldl (step fromRoot) walked = (ss.filter fun s => !s.isEmpty).reverse ++ walked := by
  induction ss generalizing walked with
  | nil => rfl
  | cons s ss ih =>
      rw [List.forall_mem_cons] at h
      rw [List.foldl_cons, ih h.2]
      by_cases hs : s = []
      · simp [hs, step]
      · simp [step_of_isName (h.1 hs), hs]

end Path

namespace Layout

/-- A text with a slash for every separator. -/
def slashed (cs : List Char) : List Char :=
  cs.map fun c => if c == '.' then '/' else c

/-- The names on the way that an id stands for, the last one with the extension. -/
def fileNames (cs : List Char) : Location :=
  ((splitOn '/' (fileOf cs).toList).filter fun s => !s.isEmpty).map String.ofList

def Undivided (name : String) : Prop :=
  ∀ c ∈ name.toList, isSeparator c = false

instance (name : String) : Decidable (Undivided name) :=
  inferInstanceAs (Decidable (∀ c ∈ name.toList, isSeparator c = false))

theorem isSeparator_iff {c : Char} : isSeparator c = true ↔ c = '.' ∨ c = '/' := by
  simp [isSeparator]

theorem slashed_append (as bs : List Char) : slashed (as ++ bs) = slashed as ++ slashed bs :=
  List.map_append

theorem slashed_cons {c : Char} (h : isSeparator c = true) (cs : List Char) :
    slashed (c :: cs) = '/' :: slashed cs := by
  rcases isSeparator_iff.mp h with rfl | rfl <;> rfl

theorem slashed_of_notMem {cs : List Char} (h : '.' ∉ cs) : slashed cs = cs := by
  refine List.map_congr_left (fun c hc => ?_) |>.trans (List.map_id _)
  have hdot : ¬ (c == '.') = true := fun hdot => h (eq_of_beq hdot ▸ hc)
  rw [if_neg hdot, id]

theorem Undivided.dot_notMem {name : String} (h : Undivided name) : '.' ∉ name.toList :=
  fun hmem => absurd (h _ hmem) (by decide)

theorem Undivided.slash_notMem {name : String} (h : Undivided name) : '/' ∉ name.toList :=
  fun hmem => absurd (h _ hmem) (by decide)

theorem Undivided.slashed_eq {name : String} (h : Undivided name) :
    slashed name.toList = name.toList :=
  slashed_of_notMem h.dot_notMem

theorem toList_fileOf (cs : List Char) : (fileOf cs).toList = slashed cs ++ ".js".toList := by
  simp [fileOf, slashed]

theorem splitOn_fileOf (cs : List Char) :
    splitOn '/' (fileOf cs).toList = extendLast ".js".toList (splitOn '/' (slashed cs)) := by
  rw [toList_fileOf, splitOn_append (by decide)]

theorem dot_notMem_slashed (cs : List Char) : '.' ∉ slashed cs := by
  intro h
  obtain ⟨c, -, hc⟩ := List.mem_map.mp h
  split at hc
  · cases hc
  · rename_i hne
    exact hne (by simp [hc])

/-- A piece has a dot in the extension only, so it leads neither nowhere nor up. -/
theorem isName_of_mem_splitOn_fileOf {cs s : List Char} (h : s ∈ splitOn '/' (fileOf cs).toList)
    (hne : s ≠ []) : IsName (String.ofList s) := by
  have hslash := not_mem_of_mem_splitOn h
  have hdots : s ≠ ['.'] ∧ s ≠ ['.', '.'] := by
    rw [splitOn_fileOf] at h
    rcases mem_extendLast (splitOn_ne_nil _ _) h with h | ⟨p, -, rfl⟩
    · have hdot : '.' ∉ s := fun hmem => dot_notMem_slashed cs (subset_of_mem_splitOn h hmem)
      constructor <;> (rintro rfl; simp at hdot)
    · constructor <;> (intro he; simpa using congrArg List.length he)
  refine ⟨⟨?_, ?_, ?_⟩, fun he => hdots.2 ?_⟩
  · simpa using hne
  · simpa using hdots.1
  · simpa using hslash
  · simpa using congrArg String.toList he

theorem isName_of_mem_fileNames {cs : List Char} : ∀ name ∈ fileNames cs, IsName name := by
  intro name hname
  obtain ⟨s, hs, rfl⟩ := List.mem_map.mp hname
  obtain ⟨hmem, hne⟩ := List.mem_filter.mp hs
  exact isName_of_mem_splitOn_fileOf hmem (by simpa using hne)

theorem fileNames_ne_nil (cs : List Char) : fileNames cs ≠ [] := by
  have hlast : ∀ ps, (extendLast ".js".toList ps).filter (fun s => !s.isEmpty) ≠ [] := by
    intro ps
    fun_induction extendLast ".js".toList ps with
    | case1 => decide
    | case2 p => simp
    | case3 p q ps ih =>
        rw [List.filter_cons]
        split
        · simp
        · exact ih
  rw [fileNames, splitOn_fileOf]
  simpa using hlast _

theorem fileNames_cons {name : String} (h : Undivided name) (hne : name ≠ "") {c : Char}
    (hc : isSeparator c = true) (cs : List Char) :
    fileNames (name.toList ++ c :: cs) = name :: fileNames cs := by
  have hfile : (fileOf (name.toList ++ c :: cs)).toList =
      name.toList ++ '/' :: (fileOf cs).toList := by
    rw [toList_fileOf, toList_fileOf, slashed_append, slashed_cons hc, h.slashed_eq,
      List.append_assoc, List.cons_append]
  simp [fileNames, hfile, splitOn_append_cons, splitOn_of_notMem h.slash_notMem, hne]

theorem fileNames_of_undivided {name : String} (h : Undivided name) :
    fileNames name.toList = [name ++ ".js"] := by
  have hfile : fileOf name.toList = name ++ ".js" :=
    String.toList_inj.mp (by rw [toList_fileOf, h.slashed_eq, String.toList_append])
  have hslash : '/' ∉ (name ++ ".js").toList := by
    simpa using h.slash_notMem
  rw [fileNames, hfile, splitOn_of_notMem hslash]
  simp

theorem foldl_step_fileOf {fromRoot : Bool} (cs : List Char) (walked : List (List Char)) :
    (splitOn '/' (fileOf cs).toList).foldl (step fromRoot) walked =
      ((fileNames cs).map String.toList).reverse ++ walked := by
  rw [Path.foldl_step_of_isName fun s => isName_of_mem_splitOn_fileOf]
  simp [fileNames, Function.comp_def]

def startsApart (cs : List Char) : Bool :=
  cs.head?.any isSeparator

theorem Undivided.startsApart_append {name : String} (h : Undivided name) (hne : name ≠ "")
    (cs : List Char) : startsApart (name.toList ++ cs) = false := by
  obtain ⟨c, rest, hc⟩ := List.exists_cons_of_ne_nil (l := name.toList) (by simpa using hne)
  rw [hc]
  exact h c (by simp [hc])

/-- Only a separator in front makes the path of an id start at the root. -/
theorem isAbsolute_fileOf (cs : List Char) : isAbsolute (fileOf cs) = startsApart cs := by
  rw [isAbsolute, toList_fileOf]
  cases cs with
  | nil => rfl
  | cons c rest =>
      by_cases hc : c = '.'
      · simp [slashed, hc, isSeparator, startsApart]
      · simp [slashed, hc, isSeparator, startsApart]

theorem normalize_join_of_startsApart {cs : List Char} (h : startsApart cs = true)
    (base : String) : Path.normalize (join base (fileOf cs)) = Disk.pathOf (fileNames cs) := by
  rw [← isAbsolute_fileOf] at h
  have hroute : route (fileOf cs) = ⟨true, splitOn '/' (fileOf cs).toList⟩ := by
    rw [route, h]
  rw [join, h, Bool.true_or, if_pos rfl, Path.normalize, hroute, Route.reduce, foldl_step_fileOf,
    List.append_nil, List.reverse_reverse]
  rfl

theorem normalize_join_pathOf {k : Location} (hk : ∀ name ∈ k, IsName name) {cs : List Char}
    (h : startsApart cs = false) :
    Path.normalize (join (Disk.pathOf k) (fileOf cs)) = Disk.pathOf (k ++ fileNames cs) := by
  rw [← isAbsolute_fileOf] at h
  rw [Path.normalize, Path.reduce_route_join hk h, foldl_step_fileOf, List.reverse_append,
    List.reverse_reverse, List.reverse_reverse, ← List.map_append]
  rfl

/-- From one directory, ids with one file have the same names, whatever the directory is. -/
theorem fileNames_eq_of_normalize_eq {base : String} {cs cs' : List Char}
    (h : startsApart cs = false) (h' : startsApart cs' = false)
    (he : Path.normalize (join base (fileOf cs)) = Path.normalize (join base (fileOf cs'))) :
    fileNames cs = fileNames cs' := by
  obtain ⟨above, habove⟩ := Path.exists_route_join base
  have hreduce : ∀ cs, startsApart cs = false → (route (join base (fileOf cs))).reduce =
      ⟨isAbsolute base, (above.foldl (step (isAbsolute base)) []).reverse ++
        (fileNames cs).map String.toList⟩ := by
    intro cs hcs
    rw [← isAbsolute_fileOf] at hcs
    rw [habove _ hcs, Route.reduce, List.foldl_append, foldl_step_fileOf, List.reverse_append,
      List.reverse_reverse]
  have hcomponents : ∀ cs, startsApart cs = false →
      Path.components (Path.normalize (join base (fileOf cs))) =
        (route (join base (fileOf cs))).reduce := by
    intro cs hcs
    rw [Path.normalize, Path.components_text fun s hs => Path.isProper_of_mem_reduce hs, if_neg]
    rw [hreduce cs hcs]
    simp [fileNames_ne_nil]
  have hsame := congrArg Path.components he
  rw [hcomponents cs h, hcomponents cs' h', hreduce cs h, hreduce cs' h', Route.mk.injEq] at hsame
  have hnames := List.append_cancel_left hsame.2
  exact (List.map_inj_right fun _ _ => String.toList_inj.mp).mp hnames

/-- What of an id leads to the file: what is below its root namespace, or all of it. -/
def remainder (l : Layout) (id : String) : List Char :=
  ((l.namespaceFor id).bind fun ns => below? ns id).getD id.toList

section
variable {l : Layout} {id : String}

theorem pathOf_eq_normalize (hid : l.overrides.get? id = none) :
    l.pathOf id = Path.normalize (join (l.baseFor id) (fileOf (l.remainder id))) := by
  rw [Layout.pathOf, hid]
  rfl

/-- The way of an id goes down from the base directory. -/
theorem pathOf_eq_append {k : Location} (hk : ∀ name ∈ k, IsName name)
    (hbase : l.baseFor id = Disk.pathOf k) (hid : l.overrides.get? id = none)
    (h : startsApart (l.remainder id) = false) :
    l.pathOf id = Disk.pathOf (k ++ fileNames (l.remainder id)) := by
  rw [pathOf_eq_normalize hid, hbase, normalize_join_pathOf hk h]

/-- With a separator in front the way starts at the root, whatever the base directory is. -/
theorem pathOf_eq_of_startsApart (hid : l.overrides.get? id = none)
    (h : startsApart (l.remainder id) = true) :
    l.pathOf id = Disk.pathOf (fileNames (l.remainder id)) := by
  rw [pathOf_eq_normalize hid, normalize_join_of_startsApart h]

/-- A path strictly below a directory, both in full. -/
def Inside (directory p : String) : Prop :=
  ∃ k rest, (∀ name ∈ k ++ rest, IsName name) ∧ rest ≠ [] ∧ Disk.pathOf k = directory ∧
    Disk.pathOf (k ++ rest) = p

/-- An id that has no path of its own leads to a file strictly below its base directory just when
what is left of it without its root namespace does not start with a separator. Otherwise its names
lead down from the root, and it takes the names of the base directory in front of them to come out
below it. -/
theorem pathOf_inside_iff (hbase : Spells (l.baseFor id)) (hid : l.overrides.get? id = none) :
    Inside (l.baseFor id) (l.pathOf id) ↔ startsApart (l.remainder id) = false ∨
      ∃ k rest, (∀ name ∈ k, IsName name) ∧ Disk.pathOf k = l.baseFor id ∧ rest ≠ [] ∧
        fileNames (l.remainder id) = k ++ rest := by
  obtain ⟨k, hk, he⟩ := hbase
  have hfile : ∀ name ∈ fileNames (l.remainder id), IsName name := isName_of_mem_fileNames
  cases h : startsApart (l.remainder id) with
  | false =>
      refine iff_of_true ?_ (.inl rfl)
      exact ⟨k, fileNames (l.remainder id), List.forall_mem_append.mpr ⟨hk, hfile⟩,
        fileNames_ne_nil _, he, (pathOf_eq_append hk he.symm hid h).symm⟩
  | true =>
      rw [pathOf_eq_of_startsApart hid h]
      constructor
      · rintro ⟨k', rest, hnames, hne, hk', hp⟩
        have hall := Disk.pathOf_injective hnames hfile hp
        exact .inr ⟨k', rest, (List.forall_mem_append.mp hnames).1, hk', hne, hall.symm⟩
      · rintro (hfalse | ⟨k', rest, -, hk', hne, hall⟩)
        · cases hfalse
        · rw [hall] at hfile ⊢
          exact ⟨k', rest, hfile, hne, hk', rfl⟩

end

def appLayout : Layout :=
  ⟨"/p/src", some "app", ∅, ∅⟩

/-- Separators one behind the other inside an id make no difference. -/
theorem pathOf_inside_iff_doubled : Spells (appLayout.baseFor "app.a..b") ∧
    appLayout.overrides.get? "app.a..b" = none ∧ appLayout.pathOf "app.a..b" = "/p/src/a/b.js" ∧
    Inside (appLayout.baseFor "app.a..b") (appLayout.pathOf "app.a..b") := by
  have hbase : Spells (appLayout.baseFor "app.a..b") := ⟨["p", "src"], by decide, rfl⟩
  exact ⟨hbase, rfl, by decide, (pathOf_inside_iff hbase rfl).mpr (.inl rfl)⟩

def bareLayout : Layout :=
  ⟨"/p/src", none, ∅, ∅⟩

/-- An id that starts with a dot and a slash leads to a file in the root directory. -/
theorem pathOf_not_inside : Spells (bareLayout.baseFor "./util") ∧
    bareLayout.overrides.get? "./util" = none ∧ bareLayout.pathOf "./util" = "/util.js" ∧
    ¬ Inside (bareLayout.baseFor "./util") (bareLayout.pathOf "./util") := by
  have hpath : bareLayout.pathOf "./util" = Disk.pathOf ["util.js"] := by decide
  refine ⟨⟨["p", "src"], by decide, rfl⟩, rfl, hpath, ?_⟩
  rintro ⟨k, rest, hnames, -, hk, hp⟩
  rw [hpath] at hp
  have hsource : k = ["p", "src"] :=
    Disk.pathOf_injective (List.forall_mem_append.mp hnames).1 (by decide) hk
  have hfile := Disk.pathOf_injective hnames (by decide) hp
  simp [hsource] at hfile

end Layout

end DefineBundle
