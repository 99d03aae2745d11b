import DefineBundle.Proofs.Files.Finding
import DefineBundle.Proofs.Files.Walks
import DefineBundle.Proofs.Files.Ways

/-!
# What a walk finds along links

A walk that ends well has followed every link below its directory, and none led back to where it
was. So it has come by every file that a path below the directory leads to, through links or not,
and by no other. Every link leads it to a directory that it is not in, and between two links it only
goes down, so it ends before the bound on its depth.
-/
namespace DefineBundle.Disk

variable {d : Disk} {links : Nat} {l l' p ns : Location} {name : String} {n : Node}

theorem Way.unique {follows : Bool} (h : Way d follows links l ns l')
    (h' : Way d follows links l ns p) : l' = p :=
  Except.ok.inj (h.locate.symm.trans h'.locate)

/-- A way through more names has come by where the first of them lead. -/
theorem Way.split {rest : Location} (h : Way d true links l (ns ++ rest) l') :
    ∃ p links', Way d true links l ns p ∧ Way d true links' p rest l' := by
  generalize hall : ns ++ rest = all at h
  induction h generalizing ns with
  | @done links l =>
      obtain ⟨rfl, rfl⟩ := List.append_eq_nil_iff.mp hall
      exact ⟨l, links, .done, .done⟩
  | unfollowed _ _ _ hfollows => cases hfollows
  | @stay links l l' name all hhere hstay hway ih =>
      rcases List.append_eq_cons_iff.mp hall with ⟨rfl, rfl⟩ | ⟨ns, rfl, rfl⟩
      · exact ⟨l, links, .done, .stay hhere hstay hway⟩
      · obtain ⟨p, links', hfirst, hrest⟩ := ih rfl
        exact ⟨p, links', .stay hhere hstay hfirst, hrest⟩
  | @up links l l' all hhere hway ih =>
      rcases List.append_eq_cons_iff.mp hall with ⟨rfl, rfl⟩ | ⟨ns, rfl, rfl⟩
      · exact ⟨l, links, .done, .up hhere hway⟩
      · obtain ⟨p, links', hfirst, hrest⟩ := ih rfl
        exact ⟨p, links', .up hhere hfirst, hrest⟩
  | @followed links l l' name target all hhere hname hlink hgo hway ih =>
      rcases List.append_eq_cons_iff.mp hall with ⟨rfl, rfl⟩ | ⟨ns, rfl, rfl⟩
      · exact ⟨l, links + 1, .done, .followed hhere hname hlink hgo hway⟩
      · obtain ⟨p, links', hfirst, hrest⟩ := ih (List.append_assoc _ _ _)
        exact ⟨p, links', .followed hhere hname hlink (.inr rfl) hfirst, hrest⟩
  | @down links l l' name all hhere hname hno hway ih =>
      rcases List.append_eq_cons_iff.mp hall with ⟨rfl, rfl⟩ | ⟨ns, rfl, rfl⟩
      · exact ⟨l, links, .done, .down hhere hname hno hway⟩
      · obtain ⟨p, links', hfirst, hrest⟩ := ih rfl
        exact ⟨p, links', .down hhere hname hno hfirst, hrest⟩

theorem Way.directory_of_ne_nil {follows : Bool} (h : Way d follows links l ns l') (hns : ns ≠ []) :
    d.node? l = some .directory := by
  cases h with
  | done => exact absurd rfl hns
  | stay hhere _ _ => exact hhere
  | up hhere _ => exact hhere
  | unfollowed hhere _ _ _ => exact hhere
  | followed hhere _ _ _ _ => exact hhere
  | down hhere _ _ _ => exact hhere

theorem Way.exists_node? (h : Way d true links l (name :: ns) l') (hname : IsName name)
    (hl' : d.node? l' = some n) : ∃ m, d.node? (l ++ [name]) = some m := by
  cases h with
  | stay _ hstay _ =>
      rcases hstay with rfl | rfl
      · exact absurd rfl hname.proper.ne_nil
      · exact absurd rfl hname.proper.ne_dot
  | up _ _ => exact absurd rfl hname.ne_up
  | unfollowed _ _ hlink _ => exact ⟨_, hlink⟩
  | followed _ _ hlink _ _ => exact ⟨_, hlink⟩
  | down _ _ _ hway =>
      by_cases hns : ns = []
      · subst hns
        cases hway
        exact ⟨n, hl'⟩
      · exact ⟨_, hway.directory_of_ne_nil hns⟩

theorem lookUp_pathOf_iff (hns : ∀ name ∈ ns, IsName name) :
    d.lookUp true (pathOf ns) = .ok (l, n) ↔
      pathFault? (pathOf ns) = none ∧ Way d true linkLimit [] ns l ∧ d.node? l = some n := by
  rw [lookUp_eq_ok_iff, find_pathOf_iff hns, locate_eq_ok_iff, and_assoc]

/-- The names lead to a file, whether or not their path is within the limits. -/
def LeadsToFile (d : Disk) (ns : Location) : Prop :=
  ∃ l f, Way d true linkLimit [] ns l ∧ d.node? l = some (.file f)

theorem LeadsToFile.ne_nil (h : d.LeadsToFile ns) : ns ≠ [] := by
  rintro rfl
  obtain ⟨l, f, hway, hfile⟩ := h
  cases hway
  rw [node?_nil] at hfile
  cases hfile

theorem isFile_pathOf_iff (hns : ∀ name ∈ ns, IsName name) :
    d.view.isFile (pathOf ns) = true ↔ pathFault? (pathOf ns) = none ∧ d.LeadsToFile ns := by
  rw [isFile_iff]
  simp only [file?_eq_ok_iff, find_pathOf_iff hns, locate_eq_ok_iff, LeadsToFile]
  constructor
  · rintro ⟨f, l, ⟨hfault, hway⟩, hfile⟩
    exact ⟨hfault, l, f, hway, hfile⟩
  · rintro ⟨hfault, l, f, hway, hfile⟩
    exact ⟨f, l, ⟨hfault, hway⟩, hfile⟩

/-- A disk on which every node has a name of its own, within the limit, in a directory. -/
structure IsOrderly (d : Disk) : Prop where
  rooted : d.Rooted
  named : ∀ {l name n}, d.node? (l ++ [name]) = some n →
    IsName name ∧ Text.byteLength name ≤ nameLimit
  nodup : (d.entries.map Prod.fst).Nodup

/-- A walk has come to a directory by the path that the names spell. -/
structure Reaches (d : Disk) (ns : Location) (here : Station) : Prop where
  named : ∀ name ∈ ns, IsName name
  path : here.path = pathOf ns
  way : Way d true linkLimit [] ns here.location
  directory : d.node? here.location = some .directory

/-- What becomes of an entry of a directory: it is a file that is found, or a device and passed
over, or a directory that is walked, either below this one or at the end of a link and then none
that the walk is in. -/
theorem IsOrderly.walkEntry_cases (hd : d.IsOrderly)
    {descend : List Station → Station → Except IoFault (List String)} {outer : List Station}
    {here : Station} {found : List String} (hhere : d.Reaches ns here)
    (hname : name ∈ d.children here.location)
    (h : d.walkEntry descend outer here name = .ok found) :
    (∀ name' ∈ ns ++ [name], IsName name') ∧
      ((found = [pathOf (ns ++ [name])] ∧ d.LeadsToFile (ns ++ [name])) ∨
        (found = [] ∧ ∃ l v, Way d true linkLimit [] (ns ++ [name]) l ∧
          d.node? l = some (.device v)) ∨
        ∃ next, d.Reaches (ns ++ [name]) next ∧ descend (here :: outer) next = .ok found ∧
          (next.location = here.location ++ [name] ∨
            ∀ s ∈ here :: outer, s.location ≠ next.location)) := by
  obtain ⟨m, hnode⟩ := mem_children_iff.mp hname
  obtain ⟨hisName, hshort⟩ := hd.named hnode
  have hnamed : ∀ name' ∈ ns ++ [name], IsName name' :=
    List.forall_mem_append.mpr ⟨hhere.named, by simpa using hisName⟩
  have hpath : Path.join here.path name = pathOf (ns ++ [name]) := by
    rw [hhere.path, join_pathOf hhere.named hisName]
  have hway : (∀ target, m ≠ .link target) →
      Way d true linkLimit [] (ns ++ [name]) (here.location ++ [name]) := fun hno =>
    hhere.way.concat hhere.directory (descends_of_isName hisName hshort)
      (.inr fun target he => hno target (Option.some.inj (hnode.symm.trans he)))
  refine ⟨hnamed, ?_⟩
  unfold walkEntry at h
  simp only [hpath, hnode] at h
  cases m with
  | file f =>
      obtain rfl := Except.ok.inj h
      exact .inl ⟨rfl, _, f, hway (by simp), hnode⟩
  | directory => exact .inr (.inr ⟨_, ⟨hnamed, rfl, hway (by simp), hnode⟩, h, .inl rfl⟩)
  | device v => exact .inr (.inl ⟨(Except.ok.inj h).symm, _, v, hway (by simp), hnode⟩)
  | link target =>
      dsimp only at h
      split at h
      · cases h
      · rename_i l hlook
        obtain ⟨-, hlink, hdirectory⟩ := (lookUp_pathOf_iff hnamed).mp hlook
        split at h
        · cases h
        · rename_i hfresh
          refine .inr (.inr ⟨_, ⟨hnamed, rfl, hlink, hdirectory⟩, h, .inr fun s hs he => ?_⟩)
          exact List.find?_eq_none.mp hfresh s hs (by simpa using he)
      · rename_i l f hlook
        obtain ⟨-, hlink, hend⟩ := (lookUp_pathOf_iff hnamed).mp hlook
        exact .inl ⟨(Except.ok.inj h).symm, l, f, hlink, hend⟩
      · rename_i reached hnotDirectory hnotFile hlook
        obtain ⟨l, m⟩ := reached
        obtain ⟨-, hlink, hend⟩ := (lookUp_pathOf_iff hnamed).mp hlook
        have hroot : ∀ target, d.node? [] ≠ some (.link target) := by simp [node?_nil]
        cases m with
        | file f => exact (hnotFile l f rfl).elim
        | device v => exact .inr (.inl ⟨(Except.ok.inj h).symm, l, v, hlink, hend⟩)
        | directory => exact (hnotDirectory l rfl).elim
        | link target => exact absurd hend (hd.rooted.node?_ne_link hroot hlink target)

section
variable {depth : Nat} {outer : List Station} {here : Station} {found : List String}

theorem exists_of_walkFrom (h : d.walkFrom (depth + 1) outer here = .ok found) :
    ∃ below : String → List String, (∀ name ∈ d.children here.location,
        d.walkEntry (d.walkFrom depth) outer here name = .ok (below name)) ∧
      found = (d.children here.location).flatMap below := by
  obtain ⟨lists, hlists, h⟩ := exists_of_bind_eq_ok h
  obtain ⟨below, hbelow, rfl⟩ := exists_map_of_mapM hlists
  exact ⟨below, hbelow, (Except.ok.inj h).symm⟩

/-- A walk finds each path once, below the one that it came by, and each leads to a file. -/
theorem IsOrderly.walkFrom_spec (hd : d.IsOrderly) (hhere : d.Reaches ns here)
    (h : d.walkFrom depth outer here = .ok found) :
    found.Nodup ∧ ∀ q ∈ found, ∃ rest, (∀ name ∈ ns ++ rest, IsName name) ∧ rest ≠ [] ∧
      q = pathOf (ns ++ rest) ∧ d.LeadsToFile (ns ++ rest) := by
  induction depth generalizing ns outer here found with
  | zero =>
      cases h
      exact ⟨List.nodup_nil, by simp⟩
  | succ depth ih =>
      obtain ⟨below, hbelow, rfl⟩ := exists_of_walkFrom h
      have hentry : ∀ name ∈ d.children here.location, (below name).Nodup ∧
          ∀ q ∈ below name, ∃ rest, (∀ name' ∈ ns ++ name :: rest, IsName name') ∧
            q = pathOf (ns ++ name :: rest) ∧ d.LeadsToFile (ns ++ name :: rest) := by
        intro name hname
        obtain ⟨hnamed, ⟨hfound, hfile⟩ | ⟨hfound, -⟩ | ⟨next, hnext, hwalk, -⟩⟩ :=
          hd.walkEntry_cases hhere hname (hbelow name hname)
        · rw [hfound]
          refine ⟨List.nodup_singleton _, fun q hq => ⟨[], hnamed, List.mem_singleton.mp hq, hfile⟩⟩
        · rw [hfound]
          exact ⟨List.nodup_nil, fun q hq => absurd hq List.not_mem_nil⟩
        · obtain ⟨hnodup, hall⟩ := ih hnext hwalk
          refine ⟨hnodup, fun q hq => ?_⟩
          obtain ⟨rest, hnamed, -, rfl, hfile⟩ := hall q hq
          rw [← List.append_cons] at *
          exact ⟨rest, hnamed, rfl, hfile⟩
      constructor
      · refine List.nodup_flatMap.mpr ⟨fun name hname => (hentry name hname).1, ?_⟩
        refine (nodup_children hd.nodup _).imp_of_mem fun {a b} ha hb hne q hq hq' => ?_
        obtain ⟨rest, hnamed, rfl, -⟩ := (hentry a ha).2 q hq
        obtain ⟨rest', hnamed', he, -⟩ := (hentry b hb).2 _ hq'
        have hsame := List.append_cancel_left (pathOf_injective hnamed hnamed' he)
        exact hne (List.cons.inj hsame).1
      · intro q hq
        obtain ⟨name, hname, hq⟩ := List.mem_flatMap.mp hq
        obtain ⟨rest, hnamed, rfl, hfile⟩ := (hentry name hname).2 q hq
        exact ⟨name :: rest, hnamed, by simp, rfl, hfile⟩

end

/-- The locations that a walk is not in. -/
def unvisited (d : Disk) (stations : List Station) : List Location :=
  ([] :: d.entries.map Prod.fst).filter fun l => stations.all fun s => s.location != l

/-- How much deeper a walk can go: each link takes one of the locations it is not in, and between
two links it goes down. -/
def room (d : Disk) (outer : List Station) (here : Station) : Nat :=
  (d.unvisited (here :: outer)).length * (d.entries.length + 1) +
    (d.entries.length - here.location.length)

theorem unvisited_cons (d : Disk) (s : Station) (stations : List Station) :
    d.unvisited (s :: stations) = (d.unvisited stations).filter fun l => s.location != l := by
  rw [unvisited, unvisited, List.filter_filter]
  rfl

theorem room_lt {outer : List Station} {here next : Station} (hd : d.Rooted)
    (hnode : d.node? next.location = some n)
    (h : (∃ name, next.location = here.location ++ [name]) ∨
      ∀ s ∈ here :: outer, s.location ≠ next.location) :
    d.room (here :: outer) next < d.room outer here := by
  have hdepth : next.location.length ≤ d.entries.length := hd.length_le (l := []) hnode
  unfold room
  rw [unvisited_cons]
  rcases h with ⟨name, hbelow⟩ | hfresh
  · have hfewer := List.length_filter_le (fun l => next.location != l) (d.unvisited (here :: outer))
    have hlength := congrArg List.length hbelow
    rw [List.length_append, List.length_singleton] at hlength
    have hmul := Nat.mul_le_mul_right (d.entries.length + 1) hfewer
    omega
  · have hmem : next.location ∈ d.unvisited (here :: outer) := by
      refine List.mem_filter.mpr ⟨?_, List.all_eq_true.mpr fun s hs => by simpa using hfresh s hs⟩
      by_cases hroot : next.location = []
      · rw [hroot]
        exact List.mem_cons_self
      · obtain ⟨e, hmem, -⟩ := exists_mem_of_node? hroot hnode
        exact List.mem_cons_of_mem _ (List.mem_map_of_mem hmem)
    have hfewer : ((d.unvisited (here :: outer)).filter fun l => next.location != l).length <
        (d.unvisited (here :: outer)).length :=
      List.length_filter_lt_length_iff_exists.mpr ⟨_, hmem, by simp⟩
    have hmul := Nat.mul_le_mul_right (d.entries.length + 1) hfewer
    rw [Nat.succ_mul] at hmul
    omega

theorem room_lt_fuel (d : Disk) (here : Station) :
    d.room [] here < (d.entries.length + 2) ^ 2 := by
  have hcount : (d.unvisited [here]).length ≤ d.entries.length + 1 :=
    (List.length_filter_le _ _).trans (by simp)
  have hmul := Nat.mul_le_mul_right (d.entries.length + 1) hcount
  have hsquare : (d.entries.length + 2) ^ 2 =
      (d.entries.length + 1) * (d.entries.length + 1) + (2 * d.entries.length + 3) := by grind
  unfold room
  omega

/-- A walk with enough depth finds every file that a path below the one it came by leads to. -/
theorem IsOrderly.mem_of_walkFrom (hd : d.IsOrderly) {depth : Nat} {outer : List Station}
    {here : Station} {found : List String} (hhere : d.Reaches ns here)
    (h : d.walkFrom depth outer here = .ok found) (hdepth : d.room outer here < depth)
    {rest : Location} (hrest : rest ≠ []) (hnamed : ∀ name ∈ ns ++ rest, IsName name)
    (hfile : d.LeadsToFile (ns ++ rest)) : pathOf (ns ++ rest) ∈ found := by
  induction depth generalizing ns outer here found rest with
  | zero => exact absurd hdepth (Nat.not_lt_zero _)
  | succ depth ih =>
      obtain ⟨below, hbelow, rfl⟩ := exists_of_walkFrom h
      obtain ⟨name, more, rfl⟩ := List.exists_cons_of_ne_nil hrest
      obtain ⟨l, f, hway, hend⟩ := hfile
      -- the way comes by the directory that the walk is in
      obtain ⟨p, links', hfirst, hon⟩ := hway.split
      obtain rfl := hfirst.unique hhere.way
      obtain ⟨m, hnode⟩ := hon.exists_node? (hnamed name (by simp)) hend
      have hchild : name ∈ d.children here.location := mem_children_iff.mpr ⟨m, hnode⟩
      refine List.mem_flatMap.mpr ⟨name, hchild, ?_⟩
      rw [List.append_cons] at hway hnamed ⊢
      obtain ⟨p, links'', hentry, hon⟩ := hway.split
      obtain ⟨-, ⟨hfound, l', f', hway', hend'⟩ | ⟨-, l', v, hway', hend'⟩ |
          ⟨next, hnext, hwalk, hwhere⟩⟩ := hd.walkEntry_cases hhere hchild (hbelow name hchild)
      · -- nothing goes on behind a file
        have hlast : more = [] := by
          by_contra hmore
          have hdirectory := hon.directory_of_ne_nil hmore
          rw [hentry.unique hway', hend'] at hdirectory
          cases hdirectory
        rw [hfound, hlast, List.append_nil]
        exact List.mem_singleton_self _
      · -- nor behind a device, which is no file itself
        rw [hentry.unique hway'] at hon
        by_cases hmore : more = []
        · subst hmore
          cases hon
          rw [hend'] at hend
          cases hend
        · rw [hon.directory_of_ne_nil hmore] at hend'
          cases hend'
      · have hmore : more ≠ [] := by
          rintro rfl
          rw [List.append_nil] at hway
          rw [hway.unique hnext.way, hnext.directory] at hend
          cases hend
        have hroom := room_lt hd.rooted hnext.directory
          (hwhere.imp (fun he => ⟨name, he⟩) id)
        exact ih hnext hwalk (by omega) hmore hnamed ⟨l, f, hway, hend⟩

theorem pathFault?_eq_none_iff {path : String} : pathFault? path = none ↔
    '\x00' ∉ path.toList ∧ path ≠ "" ∧ Text.byteLength path ≤ pathLimit := by
  unfold pathFault?
  by_cases hnul : '\x00' ∈ path.toList
  · simp [hnul]
  · by_cases hempty : path = ""
    · simp [hempty]
    · simp [hnul, hempty]

theorem pathFault?_eq_none_of_append {rest : Location}
    (h : pathFault? (pathOf (ns ++ rest)) = none) : pathFault? (pathOf ns) = none := by
  obtain ⟨more, hmore⟩ := toList_pathOf_prefix ns rest
  rw [pathFault?_eq_none_iff] at h ⊢
  obtain ⟨hnul, -, hshort⟩ := h
  refine ⟨fun hmem => hnul ?_, fun he => ?_, ?_⟩
  · rw [← hmore]
    exact List.mem_append_left _ hmem
  · simpa [he] using isEmpty_pathOf ns
  · rw [Text.byteLength, Text.bytes, ← hmore, Text.encodeUtf8, List.flatMap_append,
      List.length_append] at hshort
    exact Nat.le_trans (Nat.le_add_right _ _) hshort

/-- A directory whose path is within the limits is walked; at others there is nothing to find. -/
theorem walk_pathOf_cases (hns : ∀ name ∈ ns, IsName name) {found : List String}
    (h : d.walk (pathOf ns) = .ok found) :
    (∃ here, d.Reaches ns here ∧
      d.walkFrom ((d.entries.length + 2) ^ 2) [] here = .ok found) ∨
    (found = [] ∧ ∀ rest, rest ≠ [] → ¬ (pathFault? (pathOf (ns ++ rest)) = none ∧
      d.LeadsToFile (ns ++ rest))) := by
  unfold walk at h
  split at h
  · rename_i l hlook
    obtain ⟨-, hway, hdirectory⟩ := (lookUp_pathOf_iff hns).mp hlook
    exact .inl ⟨⟨l, pathOf ns⟩, ⟨hns, rfl, hway, hdirectory⟩, h⟩
  · rename_i hnot
    refine .inr ⟨(Except.ok.inj h).symm, ?_⟩
    rintro rest hrest ⟨hfault, l, f, hway, -⟩
    obtain ⟨p, links', hfirst, hon⟩ := hway.split
    refine hnot p ((lookUp_pathOf_iff hns).mpr ⟨?_, hfirst, hon.directory_of_ne_nil hrest⟩)
    exact pathFault?_eq_none_of_append hfault

/-- A disk is walked as expected when every path that a walk finds is within the limits of paths. -/
theorem IsOrderly.findsFiles (hd : d.IsOrderly)
    (hlimits : ∀ directory found, Spells directory → d.walk directory = .ok found →
      ∀ q ∈ found, pathFault? q = none) : d.view.FindsFiles where
  nodup {directory found} hdirectory hfound := by
    obtain ⟨ns, hns, rfl⟩ := hdirectory
    rcases walk_pathOf_cases hns hfound with ⟨here, hhere, hwalk⟩ | ⟨rfl, -⟩
    · exact (hd.walkFrom_spec hhere hwalk).1
    · exact List.nodup_nil
  mem_iff {directory found q} hdirectory hfound hq := by
    obtain ⟨ns, hns, rfl⟩ := hdirectory
    constructor
    · intro hmem
      rcases walk_pathOf_cases hns hfound with ⟨here, hhere, hwalk⟩ | ⟨rfl, -⟩
      · obtain ⟨rest, hnamed, -, rfl, hfile⟩ := (hd.walkFrom_spec hhere hwalk).2 q hmem
        refine ⟨⟨_, hnamed, rfl⟩, (isFile_pathOf_iff hnamed).mpr ⟨?_, hfile⟩, ?_⟩
        · exact hlimits _ found ⟨ns, hns, rfl⟩ hfound _ hmem
        · exact (isBelow_pathOf_iff hns hnamed).mpr (List.prefix_append _ _)
      · cases hmem
    · rintro ⟨⟨names, hnames, rfl⟩, hisFile, hbelow⟩
      obtain ⟨rest, rfl⟩ := (isBelow_pathOf_iff hns hnames).mp hbelow
      obtain ⟨hfault, hfile⟩ := (isFile_pathOf_iff hnames).mp hisFile
      have hrest : rest ≠ [] := by
        rintro rfl
        rw [List.append_nil] at hq hfile
        have hroot : pathOf ns = pathOf [] := hq.resolve_left (fun hne => hne rfl)
        exact hfile.ne_nil (pathOf_injective hns (by simp) hroot)
      rcases walk_pathOf_cases hns hfound with ⟨here, hhere, hwalk⟩ | ⟨-, hnone⟩
      · exact hd.mem_of_walkFrom hhere hwalk (room_lt_fuel d here) hrest hnames hfile
      · exact absurd ⟨hfault, hfile⟩ (hnone rest hrest)

/-- A disk without links on which every location is within the limits is walked as expected. -/
theorem IsTree.findsFiles (hd : d.IsTree) (hfits : ∀ l n, d.node? l = some n → Fits l) :
    d.view.FindsFiles := by
  have horderly : d.IsOrderly :=
    ⟨hd.rooted, fun h => ⟨hd.named h _ (by simp), (hfits _ _ h).short _ (by simp)⟩, hd.nodup⟩
  refine horderly.findsFiles fun directory found hdirectory hfound q hq => ?_
  obtain ⟨l, hl, rfl⟩ := hdirectory
  obtain ⟨locations, hwalk, -, hmem⟩ := hd.exists_walk hl
  obtain rfl := Except.ok.inj (hwalk.symm.trans hfound)
  obtain ⟨k, hk, rfl⟩ := List.mem_map.mp hq
  obtain ⟨-, ⟨f, hfile⟩, -⟩ := (hmem k).mp hk
  exact (hfits k _ hfile).fault

end DefineBundle.Disk
