import DefineBundle.Proofs.Files.Ways

/-!
# What a write changes

On any disk a write that succeeds changes the one file that its path leads to, under all its names,
and makes the missing directories above it; what a device takes is gone. A look-up that succeeds is
not led elsewhere by this, for directories stay and no link is made or taken away. So where several
paths are written one after the other, it can be told at the end which file each of them leads to.
-/
namespace DefineBundle.Disk

variable {d d₁ d' : Disk} {links : Nat} {k l p ns : Location} {f : StoredFile}

/-- Directories were made where nothing was, all of them on the way to a place that was made last
and in which there is nothing. -/
structure Paved (d d' : Disk) (p : Location) : Prop where
  rooted : d'.Rooted
  kept : ∀ k, d'.entryAt? k = d.entryAt? k ∨ d.entryAt? k = none ∧ d'.entryAt? k = some .directory ∧
    k <+: p ∧ ∀ name, d'.node? (p ++ [name]) = none

theorem Paved.sameWays (h : Paved d d' p) : SameWays d d' where
  directory {k} hk := by
    rcases h.kept k with he | ⟨-, hmade, -⟩
    · rw [node?_eq_of_entryAt? he, hk]
    · exact node?_of_entryAt? hmade
  link {k target} := by
    rcases h.kept k with he | ⟨hnone, hmade, -⟩
    · rw [node?_eq_of_entryAt? he]
    · rw [node?_of_entryAt? hmade, node?_eq_none_iff.mpr hnone]
      simp [Entry.directory, Entry.node]

theorem Paved.number? (h : Paved d d' p) (k : Location) : d'.number? k = d.number? k := by
  unfold Disk.number?
  rcases h.kept k with he | ⟨hnone, hmade, -⟩
  · rw [he]
  · rw [hnone, hmade]
    rfl

theorem Rooted.paved_put (hd : d.Rooted) (hway : Way d false linkLimit [] ns l)
    (hnone : d.node? l = none) : (d.put l .directory).Rooted ∧
      SameWays d (d.put l .directory) ∧ Way (d.put l .directory) true linkLimit [] ns l ∧
      ∀ k, (d.put l .directory).entryAt? k = if k = l then some .directory else d.entryAt? k := by
  have hne : l ≠ [] := by
    rintro rfl
    cases hnone
  have hnodes := node?_put (d := d) (n := .directory) hne
  have hstanding := hd.standing_of_way (hd.standing (node?_nil d)) hway
  have hsame : SameWays d (d.put l .directory) := by
    refine ⟨fun {k} hk => ?_, fun {k target} => ?_⟩
    · rw [hnodes]
      split
      · rfl
      · exact hk
    · rw [hnodes]
      split
      · rename_i he
        simp [he, hnone]
      · rfl
  refine ⟨hd.put hstanding hne fun _ => rfl, hsame, ?_, entryAt?_put hne⟩
  refine (hsame.way hway).following fun target he => ?_
  rw [hnodes, if_pos rfl] at he
  cases he

theorem Paved.refl (hd : d.Rooted) (p : Location) : Paved d d p :=
  ⟨hd, fun _ => .inl rfl⟩

theorem Paved.put (h : Paved d d₁ p) (hpk : p <+: k) (hway : Way d₁ false linkLimit [] ns k)
    (hnone : d₁.node? k = none) :
    Way (d₁.put k .directory) true linkLimit [] ns k ∧
      (d₁.put k .directory).node? k = some .directory ∧ Paved d (d₁.put k .directory) k := by
  obtain ⟨hrooted, -, hway', hentries⟩ := h.rooted.paved_put hway hnone
  have hhere : (d₁.put k .directory).entryAt? k = some .directory := by
    rw [hentries, if_pos rfl]
  have hbelow : ∀ name, (d₁.put k .directory).node? (k ++ [name]) = none := fun name => by
    rw [node?_eq_none_iff, hentries, if_neg (by simp)]
    exact node?_eq_none_iff.mp (h.rooted.node?_below (by simp [hnone]) name)
  refine ⟨hway', node?_of_entryAt? hhere, hrooted, fun l => ?_⟩
  by_cases hl : l = k
  · subst hl
    refine .inr ⟨?_, hhere, List.prefix_rfl, hbelow⟩
    rcases h.kept l with he | ⟨hold, -⟩
    · rw [← he, node?_eq_none_iff.mp hnone]
    · exact hold
  · rw [hentries, if_neg hl]
    rcases h.kept l with he | ⟨hold, hdirectory, hprefix, -⟩
    · exact .inl he
    · exact .inr ⟨hold, hdirectory, hprefix.trans hpk, hbelow⟩

/-- How the directories of a path come to be there. -/
inductive Makes (n : Nat) (path : String) (d d' : Disk) : Prop
  | made : d.makeDirectory path = .ok d' → Makes n path d d'
  | there : d' = d → d.isDirectory path = true → Makes n path d d'
  | above {up : String} {d₁ : Disk} : Path.parent? path = some up →
      Disk.makeDirectories n up d = (.ok (), d₁) →
      d₁.makeDirectory path = .ok d' ∨ d' = d₁ ∧ d₁.isDirectory path = true → Makes n path d d'

theorem makes_of_makeDirectories {n : Nat} {path : String} (hpath : path.isEmpty = false)
    (h : Disk.makeDirectories (n + 1) path d = (.ok (), d')) : Makes n path d d' := by
  have hthere : ∀ {d₁ : Disk} {e : DiskFault},
      ((if d₁.isDirectory path then .ok () else .error e : Except DiskFault Unit), d₁) =
        (.ok (), d') → d' = d₁ ∧ d₁.isDirectory path = true := by
    intro d₁ e he
    split at he
    · rename_i hdirectory
      exact ⟨(Prod.mk.inj he).2.symm, hdirectory⟩
    · cases he
  unfold Disk.makeDirectories at h
  rw [if_neg (by simp [hpath])] at h
  cases hmake : d.makeDirectory path with
  | ok d₁ =>
      rw [hmake] at h
      exact .made (hmake.trans (congrArg Except.ok (Prod.mk.inj h).2))
  | error e =>
      rw [hmake] at h
      cases e
      case noEntry =>
        dsimp only at h
        cases hup : Path.parent? path with
        | none =>
            rw [hup] at h
            cases h
        | some up =>
            rw [hup] at h
            dsimp only at h
            rcases hmade : Disk.makeDirectories n up d with ⟨⟨e⟩ | ⟨⟨⟩⟩, d₁⟩
            · rw [hmade] at h
              cases h
            · rw [hmade] at h
              dsimp only at h
              cases hagain : d₁.makeDirectory path with
              | ok d₂ =>
                  rw [hagain] at h
                  obtain rfl : d₂ = d' := (Prod.mk.inj h).2
                  exact .above hup hmade (.inl hagain)
              | error e =>
                  rw [hagain] at h
                  exact .above hup hmade (.inr (hthere h))
      all_goals exact .there (hthere h).1 (hthere h).2

/-- Directories that are made lie on the way to the last of them. -/
theorem Rooted.makeDirectories (hd : d.Rooted) {n : Nat} (hns : ∀ name ∈ ns, IsName name)
    (h : Disk.makeDirectories n (pathOf ns) d = (.ok (), d')) :
    ∃ p, Way d' true linkLimit [] ns p ∧ d'.node? p = some .directory ∧ Paved d d' p := by
  induction n generalizing ns d' with
  | zero => cases h
  | succ n ih =>
      cases makes_of_makeDirectories (isEmpty_pathOf ns) h with
      | made hmake =>
          obtain ⟨k, hfind, hnone, rfl⟩ := makeDirectory_eq_ok hmake
          exact ⟨k, (Paved.refl hd k).put List.prefix_rfl (way_of_find hns hfind) hnone⟩
      | there he hdirectory =>
          subst he
          obtain ⟨p, hway, hnode⟩ := way_of_isDirectory hns hdirectory
          exact ⟨p, hway, hnode, .refl hd p⟩
      | @above up d₁ hup hmade hlast =>
          rcases ns.eq_nil_or_concat with rfl | ⟨m, x, rfl⟩
          · cases hup
          rw [List.concat_eq_append] at *
          have hm : ∀ name ∈ m, IsName name := fun name hname => hns name (by simp [hname])
          have hx : IsName x := hns x (by simp)
          obtain rfl : pathOf m = up := Option.some.inj ((parent?_pathOf hm hx).symm.trans hup)
          obtain ⟨p, hway, hnode, hpaved⟩ := ih hm hmade
          rcases hlast with hmake | ⟨rfl, hdirectory⟩
          · obtain ⟨k, hfind, hnone, rfl⟩ := makeDirectory_eq_ok hmake
            have hto := way_of_find hns hfind
            obtain rfl := hto.eq_concat hx hway hnode (.inl rfl)
            exact ⟨p ++ [x], hpaved.put (List.prefix_append p [x]) hto hnone⟩
          · -- what is there cannot be in a directory that was just made
            obtain ⟨k, hto, hthere⟩ := way_of_isDirectory hns hdirectory
            refine ⟨k, hto, hthere, hpaved.rooted, fun l => ?_⟩
            rcases hpaved.kept l with he | ⟨-, -, -, hempty⟩
            · exact .inl he
            · have hk := hto.eq_concat hx hway hnode (.inr fun target => by simp [hempty])
              rw [hk, hempty] at hthere
              cases hthere

/-- A text was written to the file at a location that a path leads to, or a device there took it,
and directories were made above. -/
structure Stores (d d' : Disk) (path text : String) (l : Location) : Prop where
  rooted : d'.Rooted
  sameWays : SameWays d d'
  number? : ∀ k, d'.number? k = d.number? k
  find : d'.find true path = .ok l
  stored : (∃ v, d'.node? l = some (.device v)) ∨
    ∀ k, d'.SameFile l k → d'.node? k = some (.file ⟨some text, d.now⟩)
  kept : ∀ k, d'.entryAt? k = d.entryAt? k ∨
    (d'.SameFile l k ∧ d'.node? k = some (.file ⟨some text, d.now⟩)) ∨
    d.entryAt? k = none ∧ d'.entryAt? k = some .directory ∧ k <+: l

theorem SameFile.eq_or_exists_node? (h : d.SameFile l k) :
    k = l ∨ ∃ g, d.node? k = some (.file g) := by
  refine h.imp id ?_
  rintro ⟨hsome, he⟩
  rw [← he] at hsome
  obtain ⟨number, hnumber⟩ := Option.isSome_iff_exists.mp hsome
  obtain ⟨e, hentry, hnumber⟩ := Option.bind_eq_some_iff.mp hnumber
  cases e with
  | own n => cases hnumber
  | shared number' g => exact ⟨g, node?_of_entryAt? hentry⟩

/-- A file that is stored in a directory leaves the ways as they are, for no link is in its place.
-/
theorem Rooted.store (hd : d.Rooted) (hl : d.Standing l) (hne : l ≠ [])
    (hdirectory : d.node? l ≠ some .directory)
    (hnolink : ∀ target, d.node? l ≠ some (.link target)) :
    (d.store l f).Rooted ∧ SameWays d (d.store l f) := by
  have hsame : SameWays d (d.store l f) := by
    constructor
    · intro k hk
      have hother : ¬ d.SameFile l k := by
        intro h
        rcases h.eq_or_exists_node? with rfl | ⟨g, hg⟩
        · exact hdirectory hk
        · rw [hk] at hg
          cases hg
      rw [node?_eq_of_entryAt? (entryAt?_store_of_not_sameFile hne hother), hk]
    · intro k target
      by_cases h : d.SameFile l k
      · rw [node?_store_of_sameFile hne h]
        refine iff_of_false (by simp) ?_
        rcases h.eq_or_exists_node? with rfl | ⟨g, hg⟩
        · exact hnolink target
        · simp [hg]
      · rw [node?_eq_of_entryAt? (entryAt?_store_of_not_sameFile hne h)]
  refine ⟨fun k name n hn => hsame.directory ?_, hsame⟩
  by_cases h : d.SameFile l (k ++ [name])
  · rcases h.eq_or_exists_node? with he | ⟨g, hg⟩
    · exact hl k name he.symm
    · exact hd k name _ hg
  · rw [node?_eq_of_entryAt? (entryAt?_store_of_not_sameFile hne h)] at hn
    exact hd k name n hn

theorem Rooted.writeFile {path : String} (hd : d.Rooted) (hpath : Spells path)
    (h : d.writeFile path f = .ok d') : ∃ l, d'.Rooted ∧ SameWays d d' ∧
      (∀ k, d'.number? k = d.number? k) ∧ d.find true path = .ok l ∧ d'.find true path = .ok l ∧
      ((∃ v, d'.node? l = some (.device v)) ∧ d' = d ∨
        ∀ k, (d'.SameFile l k → d'.node? k = some (.file f)) ∧
          (¬ d'.SameFile l k → d'.entryAt? k = d.entryAt? k)) := by
  obtain ⟨ns, hns, rfl⟩ := id hpath
  obtain ⟨l, hfind, hdirectory, ⟨hdevice, rfl⟩ | ⟨-, rfl⟩⟩ := writeFile_eq_ok h
  · exact ⟨l, hd, .refl _, fun _ => rfl, hfind, hfind, .inl ⟨hdevice, rfl⟩⟩
  have hway := way_of_find hns hfind
  have hne : l ≠ [] := by
    rintro rfl
    exact hdirectory rfl
  obtain ⟨hrooted, hsame⟩ := hd.store (f := f) (hd.standing_of_way (hd.standing (node?_nil d)) hway)
    hne hdirectory (hd.node?_ne_link (fun target => by simp [node?_nil]) hway)
  refine ⟨l, hrooted, hsame, number?_store hne, hfind, hsame.find hpath hfind, .inr fun k => ?_⟩
  rw [SameFile.congr (number?_store hne)]
  exact ⟨node?_store_of_sameFile hne, entryAt?_store_of_not_sameFile hne⟩

theorem Rooted.writeText (hd : d.Rooted) {path text : String} (hpath : Spells path)
    (h : Disk.writeText path text d = (.ok (), d')) : ∃ l, Stores d d' path text l := by
  obtain ⟨d₁, hmade, hwrite⟩ := exists_of_writeText h
  obtain ⟨ns, hns, rfl⟩ := id hpath
  rcases ns.eq_nil_or_concat with rfl | ⟨m, x, rfl⟩
  · obtain ⟨l, hfind, hdirectory, -⟩ := writeFile_eq_ok hwrite
    obtain rfl : [] = l := by
      have hroot : pathOf [] = "/" := rfl
      rw [hroot, find_root] at hfind
      exact Except.ok.inj hfind
    exact absurd rfl hdirectory
  · rw [List.concat_eq_append] at *
    have hm : ∀ name ∈ m, IsName name := fun name hname => hns name (by simp [hname])
    have hx : IsName x := hns x (by simp)
    rw [Path.parent, parent?_pathOf hm hx, Option.getD_some] at hmade
    obtain ⟨p, hway, hnode, hpaved⟩ := hd.makeDirectories hm hmade
    obtain ⟨l, hrooted, hsame, hnumber, hfind, hfind', hend⟩ := hpaved.rooted.writeFile hpath hwrite
    refine ⟨l, hrooted, hpaved.sameWays.trans hsame, fun k => ?_, hfind', ?_, fun k => ?_⟩
    · exact (hnumber k).trans (hpaved.number? k)
    · exact hend.imp And.left fun hall k => (hall k).1
    · have hunchanged : d'.entryAt? k = d₁.entryAt? k → d'.entryAt? k = d.entryAt? k ∨
          d.entryAt? k = none ∧ d'.entryAt? k = some .directory ∧ k <+: l := by
        intro he
        rcases hpaved.kept k with he' | ⟨hold, hdirectory, hprefix, hempty⟩
        · exact .inl (he.trans he')
        · -- something was made, so nothing is there that could lead elsewhere
          have hl := (way_of_find hns hfind).eq_concat hx hway hnode
            (.inr fun target => by simp [hempty])
          exact .inr ⟨hold, he.trans hdirectory, hprefix.trans (hl ▸ List.prefix_append _ _)⟩
      rcases hend with ⟨-, rfl⟩ | hall
      · exact (hunchanged rfl).imp_right .inr
      · by_cases hk : d'.SameFile l k
        · exact .inr (.inl ⟨hk, (hall k).1 hk⟩)
        · exact (hunchanged ((hall k).2 hk)).imp_right .inr

end DefineBundle.Disk
