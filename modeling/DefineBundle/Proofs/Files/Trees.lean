import DefineBundle.Proofs.Files.Isolation
import DefineBundle.Proofs.Files.Locations
import DefineBundle.Proofs.Files.Lookup

/-!
# Disks without links

On a disk of directories and files with one name each, a path in normal form leads to the location
that it spells, and to nothing else. So no two such paths lead to one file, and what is written at
one of them is seen at no other.
-/
namespace DefineBundle.Disk

open DefineBundle.Text

/-- Everything on the disk stands in a directory. -/
def Rooted (d : Disk) : Prop :=
  ∀ l name n, d.node? (l ++ [name]) = some n → d.node? l = some .directory

theorem Rooted.above_append {d : Disk} (hd : d.Rooted) {l rest : Location} {n : Node}
    (hrest : rest ≠ []) (h : d.node? (l ++ rest) = some n) : d.node? l = some .directory := by
  induction rest generalizing l with
  | nil => exact absurd rfl hrest
  | cons name rest ih =>
      by_cases hnil : rest = []
      · rw [hnil] at h
        exact hd l name n h
      · rw [List.append_cons] at h
        exact hd l name _ (ih hnil h)

/-- A disk of directories and files, each with one name in a directory. -/
structure IsTree (d : Disk) : Prop where
  plain : ∀ {l e}, d.entryAt? l = some e → e = .directory ∨ ∃ f, e = .file f
  above : ∀ {l name n}, d.node? (l ++ [name]) = some n → d.node? l = some .directory
  named : ∀ {l n}, d.node? l = some n → ∀ name ∈ l, IsName name
  nodup : (d.entries.map Prod.fst).Nodup

theorem IsTree.rooted {d : Disk} (hd : d.IsTree) : d.Rooted :=
  fun _ _ _ => hd.above

section
variable {d : Disk} (hd : d.IsTree)
include hd

theorem IsTree.node_cases {l : Location} {n : Node} (h : d.node? l = some n) :
    n = .directory ∨ ∃ f, n = .file f := by
  obtain ⟨e, he, rfl⟩ := node?_eq_some_iff.mp h
  rcases hd.plain he with rfl | ⟨f, rfl⟩
  · exact .inl rfl
  · exact .inr ⟨f, rfl⟩

theorem IsTree.unlinked (l : Location) (target : String) : d.node? l ≠ some (.link target) := by
  intro h
  rcases hd.node_cases h with he | ⟨f, he⟩ <;> cases he

theorem IsTree.node?_ne_device (l : Location) (v : Device) : d.node? l ≠ some (.device v) := by
  intro h
  rcases hd.node_cases h with he | ⟨f, he⟩ <;> cases he

theorem IsTree.number?_eq_none (l : Location) : d.number? l = none := by
  unfold number?
  cases he : d.entryAt? l with
  | none => rfl
  | some e => rcases hd.plain he with rfl | ⟨f, rfl⟩ <;> rfl

theorem IsTree.locate_cons_iff {follows : Bool} {links : Nat} {l l' ns : Location}
    {name : String} :
    d.locate follows links l (name :: ns) = .ok l' ↔ d.node? l = some .directory ∧
      if name = "" ∨ name = "." then d.locate follows links l ns = .ok l'
      else if name = ".." then d.locate follows links l.dropLast ns = .ok l'
      else Text.byteLength name ≤ nameLimit ∧
        d.locate follows links (l ++ [name]) ns = .ok l' := by
  rw [locate.eq_def]
  dsimp only
  cases hnode : d.node? l with
  | none => simp
  | some n =>
      cases n with
      | file f => simp
      | device v => exact absurd hnode (hd.node?_ne_device l v)
      | link target => exact absurd hnode (hd.unlinked l target)
      | directory =>
          simp only [Bool.or_eq_true, beq_iff_eq, true_and]
          split
          · rfl
          · split
            · rfl
            · by_cases hshort : Text.byteLength name ≤ nameLimit
              · rw [if_neg (Nat.not_lt.mpr hshort)]
                split
                · rename_i target hlink
                  exact absurd hlink (hd.unlinked _ target)
                · simp [hshort]
              · rw [if_pos (Nat.lt_of_not_le hshort)]
                simp [hshort]

theorem IsTree.locate_name_iff {follows : Bool} {links : Nat} {l l' ns : Location}
    {name : String} (hname : IsName name) :
    d.locate follows links l (name :: ns) = .ok l' ↔ d.node? l = some .directory ∧
      Text.byteLength name ≤ nameLimit ∧ d.locate follows links (l ++ [name]) ns = .ok l' := by
  have hstay : ¬ (name = "" ∨ name = ".") := by
    rintro (rfl | rfl)
    · exact hname.proper.ne_nil rfl
    · exact hname.proper.ne_dot rfl
  rw [hd.locate_cons_iff, if_neg hstay, if_neg hname.ne_up]

/-- Names that lead down lead to where they say, if anywhere. -/
theorem IsTree.locate_eq_append {follows : Bool} {links : Nat} {l l' ns : Location}
    (hns : ∀ name ∈ ns, IsName name) (h : d.locate follows links l ns = .ok l') :
    l' = l ++ ns ∧ ∀ name ∈ ns, Text.byteLength name ≤ nameLimit := by
  induction ns generalizing l with
  | nil =>
      rw [locate] at h
      cases h
      simp
  | cons name ns ih =>
      rw [List.forall_mem_cons] at hns ⊢
      obtain ⟨-, hshort, h⟩ := (hd.locate_name_iff hns.1).mp h
      obtain ⟨rfl, hall⟩ := ih hns.2 h
      exact ⟨(List.append_cons _ _ _).symm, hshort, hall⟩

/-- What stands somewhere is reached by its names. -/
theorem IsTree.locate_of_node? {follows : Bool} {links : Nat} {l ns : Location} {n : Node}
    (hshort : ∀ name ∈ ns, Text.byteLength name ≤ nameLimit)
    (h : d.node? (l ++ ns) = some n) : d.locate follows links l ns = .ok (l ++ ns) := by
  induction ns generalizing l with
  | nil => rw [locate, List.append_nil]
  | cons name ns ih =>
      rw [List.forall_mem_cons] at hshort
      have hname : IsName name := hd.named h name (by simp)
      have hhere := hd.rooted.above_append (List.cons_ne_nil _ _) h
      rw [List.append_cons] at h ⊢
      exact (hd.locate_name_iff hname).mpr ⟨hhere, hshort.1, ih hshort.2 h⟩

end

/-- A location whose path is within what a disk takes. -/
structure Fits (l : Location) : Prop where
  named : ∀ name ∈ l, IsName name
  fault : pathFault? (pathOf l) = none
  short : ∀ name ∈ l, Text.byteLength name ≤ nameLimit

section
variable {d : Disk} (hd : d.IsTree) {follows : Bool} {l l' : Location} {n : Node}
include hd

omit hd in
/-- An absolute path in normal form is looked up name by name from the root. -/
theorem find_pathOf_iff (hl : ∀ name ∈ l, IsName name) :
    d.find follows (pathOf l) = .ok l' ↔
      pathFault? (pathOf l) = none ∧ d.locate follows linkLimit [] l = .ok l' := by
  have hjoin : Path.join d.current (pathOf l) = pathOf l := by
    simp [Path.join, isAbsolute_pathOf]
  have hroot : ∀ ns, d.locate follows linkLimit [] ("" :: ns) =
      d.locate follows linkLimit [] ns := fun ns => by
    rw [locate.eq_def]
    simp [node?_nil]
  unfold find
  rw [hjoin, names_pathOf hl]
  cases pathFault? (pathOf l) with
  | some e => simp
  | none =>
      dsimp only
      rw [hroot, eq_self_iff_true, true_and]
      split
      · rename_i hnil
        rw [hroot, hnil]
      · rfl

theorem IsTree.lookUp_pathOf_iff (hl : ∀ name ∈ l, IsName name) :
    d.lookUp follows (pathOf l) = .ok (l', n) ↔ Fits l ∧ l' = l ∧ d.node? l = some n := by
  rw [lookUp_eq_ok_iff, find_pathOf_iff hl]
  constructor
  · rintro ⟨⟨hfault, hlocate⟩, hnode⟩
    obtain ⟨rfl, hshort⟩ := hd.locate_eq_append hl hlocate
    exact ⟨⟨hl, hfault, hshort⟩, rfl, hnode⟩
  · rintro ⟨hfits, rfl, hnode⟩
    exact ⟨⟨hfits.fault, hd.locate_of_node? hfits.short hnode⟩, hnode⟩

/-- A path leads nowhere but to the location that it spells. -/
theorem IsTree.pathOf_of_find {path : String} (hpath : Spells path)
    (h : d.find follows path = .ok l) : pathOf l = path := by
  obtain ⟨l', hl', rfl⟩ := hpath
  obtain ⟨-, hlocate⟩ := (find_pathOf_iff hl').mp h
  obtain ⟨rfl, -⟩ := hd.locate_eq_append hl' hlocate
  rfl

/-- A name in the root directory is found whether or not something is there. -/
theorem IsTree.find_name {name : String} (h : Fits [name]) :
    d.find follows (pathOf [name]) = .ok [name] := by
  refine (find_pathOf_iff h.named).mpr ⟨h.fault, ?_⟩
  refine (hd.locate_name_iff (h.named name (by simp))).mpr ⟨rfl, h.short name (by simp), ?_⟩
  rw [locate]
  rfl

theorem IsTree.file?_pathOf_iff (hl : ∀ name ∈ l, IsName name) {f : StoredFile} :
    d.file? (pathOf l) = .ok f ↔ Fits l ∧ d.node? l = some (.file f) := by
  have hlook : d.file? (pathOf l) = .ok f ↔ ∃ l', d.lookUp true (pathOf l) = .ok (l', .file f) := by
    simp only [file?_eq_ok_iff, lookUp_eq_ok_iff]
  simp only [hlook, hd.lookUp_pathOf_iff hl]
  simp

end

/-- A location in a directory, under proper names. -/
structure Placed (d : Disk) (l : Location) : Prop where
  above : ∀ {k name}, l = k ++ [name] → d.node? k = some .directory
  named : ∀ name ∈ l, IsName name

section
variable {d : Disk} (hd : d.IsTree) {l : Location} {n : Node}
include hd

theorem IsTree.placed_of_node? (h : d.node? l = some n) : d.Placed l :=
  ⟨fun hl => hd.above (hl ▸ h), hd.named h⟩

/-- Every look-up ends in a directory, whether or not something is there. -/
theorem IsTree.placed_of_locate {follows : Bool} {links : Nat} {l' ns : Location}
    (hl : d.Placed l) (hslash : ∀ name ∈ ns, '/' ∉ name.toList)
    (h : d.locate follows links l ns = .ok l') : d.Placed l' := by
  induction ns generalizing l with
  | nil =>
      rw [locate] at h
      cases h
      exact hl
  | cons name ns ih =>
      rw [List.forall_mem_cons] at hslash
      obtain ⟨hhere, h⟩ := hd.locate_cons_iff.mp h
      split at h
      · exact ih hl hslash.2 h
      · rename_i hstay
        split at h
        · refine ih ?_ hslash.2 h
          rcases l.eq_nil_or_concat with rfl | ⟨k, last, rfl⟩
          · exact hl
          · rw [List.concat_eq_append] at hl ⊢
            rw [List.dropLast_concat]
            exact hd.placed_of_node? (hl.above rfl)
        · rename_i hup
          rw [not_or] at hstay
          have hname : IsName name :=
            ⟨⟨fun he => hstay.1 (by simpa using he), fun he => hstay.2 ?_, hslash.1⟩, hup⟩
          · refine ih ⟨fun {k last} he => ?_, ?_⟩ hslash.2 h.2
            · obtain ⟨rfl, -⟩ := List.append_singleton_inj.mp he
              exact hhere
            · rw [List.forall_mem_append]
              exact ⟨hl.named, by simpa using hname⟩
          · exact String.toList_inj.mp he

theorem IsTree.placed_of_find {follows : Bool} {path : String}
    (h : d.find follows path = .ok l) : d.Placed l := by
  unfold find at h
  split at h
  · cases h
  · refine hd.placed_of_locate (hd.placed_of_node? (node?_nil d)) ?_ h
    intro name hname
    obtain ⟨s, hs, rfl⟩ := List.mem_map.mp hname
    rw [String.toList_ofList]
    exact not_mem_of_mem_splitOn hs

/-- A directory or file that is put in a directory, in the place of nothing that is below it, leaves
a tree. -/
theorem IsTree.put (hl : d.Placed l) (hne : l ≠ []) (hn : n = .directory ∨ ∃ f, n = .file f)
    (hkeep : d.node? l = some .directory → n = .directory) : (d.put l n).IsTree where
  plain {k e} h := by
    rw [entryAt?_put hne] at h
    split at h
    · obtain rfl := Option.some.inj h
      rcases hn with rfl | ⟨f, rfl⟩
      · exact .inl rfl
      · exact .inr ⟨f, rfl⟩
    · exact hd.plain h
  above {k name n'} h := by
    have hup : d.node? k = some .directory := by
      rw [node?_put hne] at h
      split at h
      · rename_i he
        exact hl.above he.symm
      · exact hd.above h
    rw [node?_put hne]
    split
    · rename_i he
      rw [hkeep (he ▸ hup)]
    · exact hup
  named {k n'} h := by
    rw [node?_put hne] at h
    split at h
    · rename_i he
      exact he ▸ hl.named
    · exact hd.named h
  nodup := by
    have hsub : ((d.entries.filter fun e => e.1 != l).map Prod.fst).Sublist
        (d.entries.map Prod.fst) := List.filter_sublist.map _
    refine List.nodup_cons.mpr ⟨fun hmem => ?_, hd.nodup.sublist hsub⟩
    obtain ⟨e, he, hfst⟩ := List.mem_map.mp hmem
    simp [hfst] at he

/-- The same files at the same locations; directories are left open. -/
def SameFiles (d d' : Disk) : Prop :=
  ∀ k f, d'.node? k = some (.file f) ↔ d.node? k = some (.file f)

theorem IsTree.makeDirectory {path : String} {d' : Disk} (h : d.makeDirectory path = .ok d') :
    d'.IsTree ∧ SameFiles d d' := by
  obtain ⟨l, hfind, hnode, rfl⟩ := makeDirectory_eq_ok h
  have hne : l ≠ [] := by
    rintro rfl
    cases hnode
  refine ⟨hd.put (hd.placed_of_find hfind) hne (.inl rfl) fun _ => rfl, fun k f => ?_⟩
  rw [node?_put hne]
  split
  · rename_i he
    simp [he, hnode]
  · rfl

theorem IsTree.makeDirectories (n : Nat) (path : String) :
    (makeDirectories n path d).2.IsTree ∧ SameFiles d (makeDirectories n path d).2 := by
  have hsame : d.IsTree ∧ SameFiles d d := ⟨hd, fun _ _ => Iff.rfl⟩
  induction n generalizing path with
  | zero => exact hsame
  | succ n ih =>
      unfold Disk.makeDirectories
      split
      · exact hsame
      · cases hmake : d.makeDirectory path with
        | ok d₁ => exact hd.makeDirectory hmake
        | error e =>
            cases e
            case noEntry =>
              dsimp only
              split
              · exact hsame
              · rename_i above _
                obtain ⟨htree, hfiles⟩ := ih above
                cases hup : Disk.makeDirectories n above d with
                | mk r d₁ =>
                    rw [hup] at htree hfiles
                    cases r with
                    | error e => exact ⟨htree, hfiles⟩
                    | ok u =>
                        dsimp only at htree hfiles ⊢
                        cases hagain : d₁.makeDirectory path with
                        | error e => exact ⟨htree, hfiles⟩
                        | ok d₂ =>
                            obtain ⟨htree', hfiles'⟩ := htree.makeDirectory hagain
                            exact ⟨htree', fun k f => (hfiles' k f).trans (hfiles k f)⟩
            all_goals exact hsame

theorem IsTree.writeFile {f : StoredFile} {d' : Disk} (hl : ∀ name ∈ l, IsName name)
    (h : d.writeFile (pathOf l) f = .ok d') :
    d'.IsTree ∧ Fits l ∧ ∀ k, d'.node? k = if k = l then some (.file f) else d.node? k := by
  obtain ⟨l', hfind, hdirectory, ⟨⟨v, hdevice⟩, -⟩ | ⟨-, rfl⟩⟩ := writeFile_eq_ok h
  · exact absurd hdevice (hd.node?_ne_device l' v)
  rw [store_of_number?_eq_none (hd.number?_eq_none l')]
  have hplaced := hd.placed_of_find hfind
  obtain ⟨hfault, hlocate⟩ := (find_pathOf_iff hl).mp hfind
  obtain ⟨he, hshort⟩ := hd.locate_eq_append hl hlocate
  obtain rfl : l = l' := he.symm
  have hne : l ≠ [] := by
    rintro rfl
    exact hdirectory rfl
  exact ⟨hd.put hplaced hne (.inr ⟨f, rfl⟩) fun hnode => absurd hnode hdirectory,
    ⟨hl, hfault, hshort⟩, node?_put hne⟩

omit hd in
/-- A text that is written stands in a directory that was made for it if need be. -/
theorem exists_of_writeText {path text : String} {d' : Disk}
    (h : writeText path text d = (.ok (), d')) : ∃ d₁,
      Disk.makeDirectories (path.length + 1) (Path.parent path) d = (.ok (), d₁) ∧
      d₁.writeFile path ⟨some text, d.now⟩ = .ok d' := by
  unfold Disk.writeText write at h
  cases hmade : Disk.makeDirectories (path.length + 1) (Path.parent path) d with
  | mk r d₁ =>
      simp only [hmade] at h
      cases r with
      | error e => cases h
      | ok u =>
          dsimp only at h
          cases hwrite : d₁.writeFile path ⟨some text, d.now⟩ with
          | error e =>
              rw [hwrite] at h
              cases h
          | ok d₂ =>
              rw [hwrite] at h
              cases h
              exact ⟨d₁, rfl, hwrite⟩

/-- A text that is written is at its own location, and all other files are as they were. -/
theorem IsTree.writeText {text : String} {d' : Disk} (hl : ∀ name ∈ l, IsName name)
    (h : writeText (pathOf l) text d = (.ok (), d')) :
    d'.IsTree ∧ Fits l ∧ ∀ k f, d'.node? k = some (.file f) ↔
      if k = l then f = ⟨some text, d.now⟩ else d.node? k = some (.file f) := by
  obtain ⟨htree, hfiles⟩ :=
    hd.makeDirectories ((pathOf l).length + 1) (Path.parent (pathOf l))
  obtain ⟨d₁, hmade, hwrite⟩ := exists_of_writeText h
  rw [hmade] at htree hfiles
  obtain ⟨htree', hfits, hnodes⟩ := htree.writeFile hl hwrite
  refine ⟨htree', hfits, fun k f => ?_⟩
  rw [hnodes]
  split
  · simp [eq_comm]
  · exact hfiles k f

end

def blank : Disk :=
  ⟨[], "/", 1⟩

theorem entryAt?_blank {l : Location} (hl : l ≠ []) : blank.entryAt? l = none := by
  simp [entryAt?, blank, hl]

theorem node?_blank {l : Location} (hl : l ≠ []) : blank.node? l = none :=
  node?_eq_none_iff.mpr (entryAt?_blank hl)

theorem bare_blank : blank.Bare :=
  fun _ he => absurd he List.not_mem_nil

theorem isTree_blank : blank.IsTree where
  plain {l e} h := by
    by_cases hl : l = []
    · subst hl
      exact .inl (Option.some.inj h).symm
    · rw [entryAt?_blank hl] at h
      cases h
  above {l name n} h := by
    rw [node?_blank (by simp)] at h
    cases h
  named {l n} h name hname := by
    rw [node?_blank (List.ne_nil_of_mem hname)] at h
    cases h
  nodup := List.nodup_nil

section
variable {d d' : Disk} (hd : d.IsTree)
include hd

theorem IsTree.file?_of_writeText {p text : String} (hp : Spells p)
    (h : Disk.writeText p text d = (.ok (), d')) : d'.file? p = .ok ⟨some text, d.now⟩ := by
  obtain ⟨l, hl, rfl⟩ := hp
  obtain ⟨htree, hfits, hfiles⟩ := hd.writeText hl h
  have hnode : d'.node? l = some (.file ⟨some text, d.now⟩) := by
    rw [hfiles, if_pos rfl]
  exact (htree.file?_pathOf_iff hl).mpr ⟨hfits, hnode⟩

/-- What is written at one path is not seen at another. -/
theorem IsTree.sameAt_of_writeText {p q text : String} (hp : Spells p) (hq : Spells q)
    (hne : q ≠ p) (h : Disk.writeText p text d = (.ok (), d')) :
    Discovery.SameAt d.view d'.view q := by
  obtain ⟨l, hl, rfl⟩ := hp
  obtain ⟨k, hk, rfl⟩ := hq
  obtain ⟨htree, -, hfiles⟩ := hd.writeText hl h
  refine sameAt_of_file? fun f => ?_
  have hother : ¬ k = l := fun he => hne (congrArg pathOf he)
  rw [htree.file?_pathOf_iff hk, hd.file?_pathOf_iff hk, hfiles k f, if_neg hother]

theorem IsTree.of_wrote {paths : List String} (hpaths : ∀ p ∈ paths, Spells p)
    (h : fileSystem.Wrote paths d d') : d'.IsTree := by
  induction h with
  | refl => exact hd
  | write _ hmem hw ih =>
      obtain ⟨l, hl, rfl⟩ := hpaths _ hmem
      dsimp only [fileSystem] at hw
      exact (ih.writeText hl hw).1

/-- On such a disk different paths lead to different files. -/
theorem IsTree.separates {paths : List String} (hpaths : ∀ p ∈ paths, Spells p) :
    fileSystem.Separates paths d where
  written hat hp hw := by
    have hfile := (hd.of_wrote hpaths hat).file?_of_writeText (hpaths _ hp) hw
    exact ⟨isFile_iff.mpr ⟨_, hfile⟩, read_of_file? hfile rfl⟩
  untouched hat hp hw q hq hne :=
    ((hd.of_wrote hpaths hat).sameAt_of_writeText (hpaths _ hp) (hpaths q hq) hne hw).toSameText

end

end DefineBundle.Disk
