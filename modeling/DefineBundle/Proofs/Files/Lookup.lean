import DefineBundle.Failure
import DefineBundle.Files.Walk
import DefineBundle.Proofs.Discovery.Repeatable

/-!
# Looking up

What a path leads to is found in two steps, first its location and then what stands there. What a
build asks of a path depends on nothing but the file found in this way.
-/
namespace DefineBundle.Disk

variable {d d' : Disk} {follows : Bool} {path : String} {l k : Location} {n : Node} {e : Entry}
  {f : StoredFile}

theorem lookUp_eq_ok_iff :
    d.lookUp follows path = .ok (l, n) ↔ d.find follows path = .ok l ∧ d.node? l = some n := by
  constructor
  · intro h
    unfold lookUp at h
    obtain ⟨l', hfind, h⟩ := exists_of_bind_eq_ok h
    cases hn : d.node? l' with
    | none =>
        rw [hn] at h
        cases h
    | some n' =>
        rw [hn] at h
        cases h
        exact ⟨hfind, hn⟩
  · rintro ⟨hfind, hn⟩
    refine bind_eq_ok hfind ?_
    rw [hn]
    rfl

theorem file?_eq_ok_iff :
    d.file? path = .ok f ↔ ∃ l, d.find true path = .ok l ∧ d.node? l = some (.file f) := by
  constructor
  · intro h
    unfold file? at h
    obtain ⟨⟨l, n⟩, hlook, h⟩ := exists_of_bind_eq_ok h
    cases n with
    | file f' =>
        cases h
        exact ⟨l, lookUp_eq_ok_iff.mp hlook⟩
    | device v => cases h
    | link target => cases h
    | directory => cases h
  · rintro ⟨l, h⟩
    exact bind_eq_ok (lookUp_eq_ok_iff.mpr h) rfl

theorem isFile_iff : d.view.isFile path = true ↔ ∃ f, d.file? path = .ok f := by
  have hiff : d.isFile path = true ↔ ∃ l f, d.lookUp true path = .ok (l, .file f) := by
    unfold isFile
    split
    · rename_i l f hlook
      exact iff_of_true rfl ⟨l, f, hlook⟩
    · rename_i hnot
      refine iff_of_false Bool.false_ne_true ?_
      rintro ⟨l, f, hlook⟩
      exact hnot l f hlook
  refine hiff.trans ⟨?_, ?_⟩
  · rintro ⟨l, f, hlook⟩
    exact ⟨f, file?_eq_ok_iff.mpr ⟨l, lookUp_eq_ok_iff.mp hlook⟩⟩
  · rintro ⟨f, hf⟩
    obtain ⟨l, h⟩ := file?_eq_ok_iff.mp hf
    exact ⟨l, f, lookUp_eq_ok_iff.mpr h⟩

theorem read_eq_of_file? (h : d.file? path = .ok f) :
    d.read path = match f.content with
      | some text => .ok text
      | none => .error .notText := by
  obtain ⟨l, hl⟩ := file?_eq_ok_iff.mp h
  unfold read
  rw [lookUp_eq_ok_iff.mpr hl]
  rfl

theorem read_of_file? {text : String} (h : d.file? path = .ok f) (htext : f.content = some text) :
    d.view.read path = .ok text := by
  change (d.read path).mapError DiskFault.fault = _
  rw [read_eq_of_file? h, htext]
  rfl

theorem modified_of_file? (h : d.file? path = .ok f) :
    d.view.modified path = .ok f.modified := by
  obtain ⟨l, hl⟩ := file?_eq_ok_iff.mp h
  have hmodified : d.modified path = .ok f.modified := bind_eq_ok (lookUp_eq_ok_iff.mpr hl) rfl
  change (d.modified path).mapError DiskFault.fault = _
  rw [hmodified]
  rfl

/-- Where a path leads to the same file, or to none, all that is asked of it is the same. -/
theorem sameAt_of_file? (h : ∀ f, d'.file? path = .ok f ↔ d.file? path = .ok f) :
    Discovery.SameAt d.view d'.view path := by
  have hfile : d'.view.isFile path = d.view.isFile path := by
    rw [Bool.eq_iff_iff, isFile_iff, isFile_iff]
    exact exists_congr h
  have hread : ∀ f, d.file? path = .ok f → d'.view.read path = d.view.read path := by
    intro f hf
    change (d'.read path).mapError _ = (d.read path).mapError _
    rw [read_eq_of_file? hf, read_eq_of_file? ((h f).mpr hf)]
  refine ⟨⟨hfile, fun hf => ?_⟩, fun hf => ?_⟩
  · obtain ⟨f, hf⟩ := isFile_iff.mp hf
    exact hread f hf
  · obtain ⟨f, hf⟩ := isFile_iff.mp hf
    rw [modified_of_file? hf, modified_of_file? ((h f).mpr hf)]

theorem node?_nil (d : Disk) : d.node? [] = some .directory :=
  rfl

theorem node?_eq_some_iff : d.node? l = some n ↔ ∃ e, d.entryAt? l = some e ∧ e.node = n :=
  Option.map_eq_some_iff

theorem node?_eq_none_iff : d.node? l = none ↔ d.entryAt? l = none :=
  Option.map_eq_none_iff

theorem node?_of_entryAt? (h : d.entryAt? l = some e) : d.node? l = some e.node :=
  node?_eq_some_iff.mpr ⟨e, h, rfl⟩

theorem node?_eq_of_entryAt? (h : d'.entryAt? l = d.entryAt? l) : d'.node? l = d.node? l :=
  congrArg (Option.map Entry.node) h

theorem mem_entries_of_entryAt? (hl : l ≠ []) (h : d.entryAt? l = some e) : (l, e) ∈ d.entries := by
  unfold entryAt? at h
  rw [if_neg (by simpa using hl)] at h
  obtain ⟨⟨k, e'⟩, hfound, rfl⟩ := Option.map_eq_some_iff.mp h
  have hk : k = l := by simpa using List.find?_some hfound
  exact hk ▸ List.mem_of_find?_eq_some hfound

theorem exists_mem_of_node? (hl : l ≠ []) (h : d.node? l = some n) :
    ∃ e, (l, e) ∈ d.entries ∧ e.node = n := by
  obtain ⟨e, he, hn⟩ := node?_eq_some_iff.mp h
  exact ⟨e, mem_entries_of_entryAt? hl he, hn⟩

theorem exists_node?_of_mem (h : (l, e) ∈ d.entries) : ∃ n, d.node? l = some n := by
  by_cases hl : l = []
  · exact ⟨.directory, hl ▸ rfl⟩
  · have hfound : (d.entries.find? fun e => e.1 == l).isSome = true := by
      rw [List.find?_isSome]
      exact ⟨(l, e), h, by simp⟩
    obtain ⟨e, he⟩ := Option.isSome_iff_exists.mp hfound
    exact ⟨e.2.node, node?_of_entryAt? (by simp [entryAt?, hl, he])⟩

theorem entryAt?_put (hl : l ≠ []) (k : Location) :
    (d.put l n).entryAt? k = if k = l then some (.own n) else d.entryAt? k := by
  by_cases hroot : k = []
  · subst hroot
    rw [if_neg hl.symm]
    rfl
  · have hempty : ¬ (k.isEmpty = true) := by simpa using hroot
    unfold entryAt? put
    rw [if_neg hempty, if_neg hempty]
    by_cases he : k = l
    · simp [he]
    · have hne : ¬ l = k := fun h => he h.symm
      have hkept : ∀ e : Location × Entry, (e.1 == k) = true → (e.1 != l) = true := fun e h => by
        simp only [beq_iff_eq] at h
        simp [h, he]
      simp only [he, if_false, List.find?_cons, beq_eq_false_iff_ne.mpr hne, List.find?_filter]
      congr 2
      funext e
      by_cases h : (e.1 == k) = true
      · simp [h, hkept e h]
      · simp [h]

theorem node?_put (hl : l ≠ []) (k : Location) :
    (d.put l n).node? k = if k = l then some n else d.node? k := by
  unfold node?
  rw [entryAt?_put hl]
  split
  · rfl
  · rfl

def Bare (d : Disk) : Prop :=
  ∀ e ∈ d.entries, ∀ f, e.2.node ≠ .file f

theorem exists_mem_entries_of_isFile (h : d.view.isFile path = true) :
    ∃ e ∈ d.entries, ∃ f, e.2.node = .file f ∧ d.file? path = .ok f := by
  obtain ⟨f, hf⟩ := isFile_iff.mp h
  obtain ⟨l, -, hnode⟩ := file?_eq_ok_iff.mp hf
  have hne : l ≠ [] := by
    rintro rfl
    cases hnode
  obtain ⟨e, hmem, he⟩ := exists_mem_of_node? hne hnode
  exact ⟨_, hmem, f, he, hf⟩

theorem Bare.isFile_eq_false (h : d.Bare) (path : String) : d.view.isFile path = false := by
  rw [Bool.eq_false_iff]
  intro hf
  obtain ⟨e, hmem, f, he, -⟩ := exists_mem_entries_of_isFile hf
  exact h e hmem f he

theorem SameFile.refl (d : Disk) (l : Location) : d.SameFile l l :=
  .inl rfl

theorem SameFile.symm (h : d.SameFile l k) : d.SameFile k l := by
  rcases h with rfl | ⟨hsome, he⟩
  · exact .inl rfl
  · exact .inr ⟨he ▸ hsome, he.symm⟩

theorem SameFile.trans {m : Location} (h : d.SameFile l k) (h' : d.SameFile k m) :
    d.SameFile l m := by
  rcases h with rfl | ⟨hsome, he⟩
  · exact h'
  · rcases h' with rfl | ⟨-, he'⟩
    · exact .inr ⟨hsome, he⟩
    · exact .inr ⟨hsome, he'.trans he⟩

theorem SameFile.congr (h : ∀ l, d'.number? l = d.number? l) :
    d'.SameFile l k ↔ d.SameFile l k := by
  unfold SameFile
  rw [h, h]

theorem SameFile.eq_of_number? (h : d.SameFile l k) (hl : d.number? l = none) : k = l := by
  rcases h with rfl | ⟨hsome, -⟩
  · rfl
  · rw [hl] at hsome
    cases hsome

theorem number?_eq_none (h : ∀ e ∈ d.entries, e.2.number? = none) (l : Location) :
    d.number? l = none := by
  unfold number?
  cases he : d.entryAt? l with
  | none => rfl
  | some e =>
      by_cases hl : l = []
      · obtain rfl : Entry.directory = e := Option.some.inj ((hl ▸ he : d.entryAt? [] = some e))
        rfl
      · exact h _ (mem_entries_of_entryAt? hl he)

theorem rewrite_of_number?_ne {number : Nat} (h : e.number? ≠ some number) :
    e.rewrite number f = e := by
  cases e with
  | own n => rfl
  | shared k g =>
      have hk : k ≠ number := fun he => h (congrArg some he)
      rw [Entry.rewrite, if_neg hk]

theorem node_rewrite_of_number? {number : Nat} (h : e.number? = some number) :
    (e.rewrite number f).node = .file f := by
  cases e with
  | own n => cases h
  | shared k g => rw [Entry.rewrite, if_pos (Option.some.inj h), Entry.node]

theorem number?_rewrite (number : Nat) (f : StoredFile) (e : Entry) :
    (e.rewrite number f).number? = e.number? := by
  cases e with
  | own n => rfl
  | shared k g => rfl

theorem store_of_number?_eq_none (h : d.number? l = none) : d.store l f = d.put l (.file f) := by
  rw [store, h]

theorem entryAt?_store_of_number? {number : Nat} (h : d.number? l = some number) (k : Location) :
    (d.store l f).entryAt? k = (d.entryAt? k).map (Entry.rewrite number f) := by
  rw [store, h]
  unfold entryAt?
  dsimp only
  split
  · rfl
  · rw [List.find?_map, Option.map_map, Option.map_map]
    rfl

/-- A file that is stored is there under all names of the file that was there. -/
theorem node?_store_of_sameFile (hl : l ≠ []) (h : d.SameFile l k) :
    (d.store l f).node? k = some (.file f) := by
  cases hnumber : d.number? l with
  | none => rw [store_of_number?_eq_none hnumber, node?_put hl, if_pos (h.eq_of_number? hnumber)]
  | some number =>
      have hk : d.number? k = some number := by
        rcases h with rfl | ⟨-, he⟩
        · exact hnumber
        · exact he.trans hnumber
      obtain ⟨e, he, hnumber'⟩ := Option.bind_eq_some_iff.mp hk
      have hstored := entryAt?_store_of_number? (f := f) hnumber k
      rw [he] at hstored
      rw [node?_of_entryAt? hstored, node_rewrite_of_number? hnumber']

theorem entryAt?_store_of_not_sameFile (hl : l ≠ []) (h : ¬ d.SameFile l k) :
    (d.store l f).entryAt? k = d.entryAt? k := by
  cases hnumber : d.number? l with
  | none => rw [store_of_number?_eq_none hnumber, entryAt?_put hl, if_neg fun he => h (.inl he)]
  | some number =>
      rw [entryAt?_store_of_number? hnumber]
      cases he : d.entryAt? k with
      | none => rfl
      | some e =>
          refine congrArg some (rewrite_of_number?_ne fun hnumber' => h (.inr ⟨?_, ?_⟩))
          · rw [hnumber]
            rfl
          · rw [hnumber]
            exact Option.bind_eq_some_iff.mpr ⟨e, he, hnumber'⟩

theorem number?_put (hl : l ≠ []) (hnumber : d.number? l = none) (k : Location) :
    (d.put l n).number? k = d.number? k := by
  unfold number?
  rw [entryAt?_put hl]
  split
  · rename_i he
    rw [he]
    exact hnumber.symm
  · rfl

theorem number?_store (hl : l ≠ []) (k : Location) :
    (d.store l f).number? k = d.number? k := by
  cases hnumber : d.number? l with
  | none => rw [store_of_number?_eq_none hnumber, number?_put hl hnumber]
  | some number =>
      unfold number?
      rw [entryAt?_store_of_number? hnumber]
      cases d.entryAt? k with
      | none => rfl
      | some e => exact number?_rewrite number f e

theorem makeDirectory_eq_ok (h : d.makeDirectory path = .ok d') :
    ∃ k, d.find false path = .ok k ∧ d.node? k = none ∧ d' = d.put k .directory := by
  unfold Disk.makeDirectory at h
  obtain ⟨k, hfind, h⟩ := exists_of_bind_eq_ok h
  cases hnode : d.node? k with
  | some n =>
      rw [hnode] at h
      cases h
  | none =>
      rw [hnode] at h
      exact ⟨k, hfind, hnode, (Except.ok.inj h).symm⟩

/-- A file that is written is in the place of no directory, and a device keeps nothing of it. -/
theorem writeFile_eq_ok (h : d.writeFile path f = .ok d') :
    ∃ l, d.find true path = .ok l ∧ d.node? l ≠ some .directory ∧
      ((∃ v, d.node? l = some (.device v)) ∧ d' = d ∨
        (∀ v, d.node? l ≠ some (.device v)) ∧ d' = d.store l f) := by
  unfold Disk.writeFile at h
  obtain ⟨l, hfind, h⟩ := exists_of_bind_eq_ok h
  refine ⟨l, hfind, ?_⟩
  cases hnode : d.node? l with
  | none =>
      rw [hnode] at h
      exact ⟨nofun, .inr ⟨nofun, (Except.ok.inj h).symm⟩⟩
  | some n =>
      rw [hnode] at h
      cases n with
      | file f' => exact ⟨nofun, .inr ⟨nofun, (Except.ok.inj h).symm⟩⟩
      | link target => exact ⟨nofun, .inr ⟨nofun, (Except.ok.inj h).symm⟩⟩
      | directory => cases h
      | device v =>
          dsimp only at h
          split at h
          · cases h
          · exact ⟨nofun, .inl ⟨⟨v, rfl⟩, (Except.ok.inj h).symm⟩⟩

theorem find_root (d : Disk) (follows : Bool) : d.find follows "/" = .ok [] := by
  have hjoin : Path.join d.current "/" = "/" := by
    simp [Path.join, Path.isAbsolute]
  have hnames : names "/" = ["", ""] := by decide
  have hfault : pathFault? "/" = none := by decide
  simp [find, hfault, hjoin, hnames, locate, node?_nil]

theorem makeDirectories_root (d : Disk) (n : Nat) :
    makeDirectories (n + 1) "/" d = (.ok (), d) := by
  have hthere : d.makeDirectory "/" = .error .alreadyThere := by
    unfold makeDirectory
    rw [find_root]
    rfl
  have hdirectory : d.isDirectory "/" = true := by
    unfold isDirectory lookUp
    rw [find_root]
    rfl
  have hempty : "/".isEmpty = false := by decide
  simp [makeDirectories, hthere, hempty, hdirectory]

/-- A file in the root directory is written unless a directory or a device is in its way. -/
theorem writeText_of_find (hparent : Path.parent path = "/") (hfind : d.find true path = .ok l)
    (hdirectory : d.node? l ≠ some .directory) (hdevice : ∀ v, d.node? l ≠ some (.device v))
    (text : String) : writeText path text d = (.ok (), d.store l ⟨some text, d.now⟩) := by
  have hwrite : d.writeFile path ⟨some text, d.now⟩ = .ok (d.store l ⟨some text, d.now⟩) := by
    refine bind_eq_ok hfind ?_
    split
    · rename_i hnode
      exact absurd hnode hdirectory
    · rename_i v hnode
      exact absurd hnode (hdevice v)
    · rfl
    · rfl
  simp only [writeText, write, hparent, makeDirectories_root, hwrite]
  rfl

end DefineBundle.Disk
