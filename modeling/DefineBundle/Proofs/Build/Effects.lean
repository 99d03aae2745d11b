import DefineBundle.Proofs.Build.Reports
import DefineBundle.Proofs.Build.Sessions
import DefineBundle.Proofs.Files.Writes
import DefineBundle.Proofs.Options.NativeSettings

/-!
# What a build changes

Nothing is written unless all bundles were made. A build that writes them all changes the files that
their paths lead to, makes directories above these, and leaves everything else on the disk as it
was. Where links make two paths lead to one file, or where the file has two names, the bundle that
is written last is the one that stays; a device keeps nothing.
-/
namespace DefineBundle

open DefineBundle.Discovery (run)

/-- A path leads to the file of which a location is one of the names. -/
def Disk.LeadsTo (d : Disk) (path : String) (l : Location) : Prop :=
  ∃ k, d.find true path = .ok k ∧ d.SameFile k l

theorem Disk.LeadsTo.trans {d : Disk} {path : String} {l k : Location} (h : d.LeadsTo path l)
    (hsame : d.SameFile l k) : d.LeadsTo path k := by
  obtain ⟨m, hfind, hm⟩ := h
  exact ⟨m, hfind, hm.trans hsame⟩

/-- At a location there is a device, or a file that has, under all its names, the last of the bundles
whose paths lead to it. -/
def Disk.HasLast (d : Disk) (as : List Asset) (l : Location) : Prop :=
  (∃ v, d.node? l = some (.device v)) ∨
    ∃ f front c back, as = front ++ c :: back ∧ f.content = some c.content ∧
      d.LeadsTo c.path l ∧ (∀ e ∈ back, ¬ d.LeadsTo e.path l) ∧
      ∀ k, d.SameFile l k → d.node? k = some (.file f)

namespace Disk.HasLast

variable {d : Disk} {as : List Asset} {l k : Location}

theorem cons (h : d.HasLast as l) (a : Asset) : d.HasLast (a :: as) l := by
  rcases h with hdevice | ⟨f, front, c, back, rfl, hlast⟩
  · exact .inl hdevice
  · exact .inr ⟨f, a :: front, c, back, rfl, hlast⟩

theorem of_sameFile (h : d.HasLast as l) (hsame : d.SameFile l k) : d.HasLast as k := by
  rcases h with ⟨v, hdevice⟩ | ⟨f, front, c, back, rfl, hcontent, hled, hlast, hnames⟩
  · rcases hsame.symm.eq_or_exists_node? with rfl | ⟨g, hg⟩
    · exact .inl ⟨v, hdevice⟩
    · rw [hdevice] at hg
      cases hg
  · exact .inr ⟨f, front, c, back, rfl, hcontent, hled.trans hsame,
      fun e he hback => hlast e he (hback.trans hsame.symm), fun n hn => hnames n (hsame.trans hn)⟩

end Disk.HasLast

/-- The bundles were written to a disk one after the other, and nothing else was done to it. -/
structure Delivered (disk disk' : Disk) (as : List Asset) : Prop where
  number? : ∀ l, disk'.number? l = disk.number? l
  kept : ∀ l, disk'.entryAt? l = disk.entryAt? l ∨
    (∃ f, disk'.node? l = some (.file f)) ∧ (∃ a ∈ as, disk'.LeadsTo a.path l) ∨
    disk.entryAt? l = none ∧ disk'.entryAt? l = some .directory ∧
      ∃ a ∈ as, ∃ k, disk'.find true a.path = .ok k ∧ l <+: k
  stored : ∀ a ∈ as, ∃ l, disk'.find true a.path = .ok l ∧ disk'.HasLast as l

/-- A bundle is there with exactly its text if no other one went to the same file, and if it was a
file that it went to. -/
theorem Delivered.onDisk {disk disk' : Disk} {as : List Asset} (h : Delivered disk disk' as)
    {a : Asset} (ha : a ∈ as)
    (hfile : ∀ l v, disk'.find true a.path = .ok l → disk'.node? l ≠ some (.device v))
    (hown : ∀ c ∈ as, ∀ l, disk'.find true a.path = .ok l → disk'.LeadsTo c.path l → c = a) :
    a.OnDisk disk'.view := by
  obtain ⟨l, hfind, ⟨v, hdevice⟩ | ⟨f, front, c, back, rfl, hcontent, hc, -, hnames⟩⟩ :=
    h.stored a ha
  · exact absurd hdevice (hfile l v hfind)
  · obtain rfl : c = a := hown c (by simp) l hfind hc
    have hfile := Disk.file?_eq_ok_iff.mpr ⟨l, hfind, hnames l (.refl _ l)⟩
    exact ⟨Disk.isFile_iff.mpr ⟨f, hfile⟩, Disk.read_of_file? hfile hcontent⟩

/-- Where everything has one name, what was written is at the paths themselves. -/
theorem Delivered.entryAt?_of_isTree {disk disk' : Disk} {as : List Asset}
    (h : Delivered disk disk' as) (htree : disk'.IsTree) (has : ∀ a ∈ as, Disk.Spells a.path)
    (l : Location) :
    disk'.entryAt? l = disk.entryAt? l ∨ (∃ a ∈ as, Disk.pathOf l = a.path) ∨
      disk.entryAt? l = none ∧ disk'.entryAt? l = some .directory ∧
        ∃ a ∈ as, ∃ k, Disk.pathOf k = a.path ∧ l <+: k := by
  rcases h.kept l with he | ⟨-, a, ha, k, hfind, hsame⟩ | ⟨hnone, hmade, a, ha, k, hfind, hprefix⟩
  · exact .inl he
  · obtain rfl := hsame.eq_of_number? (htree.number?_eq_none k)
    exact .inr (.inl ⟨a, ha, htree.pathOf_of_find (has a ha) hfind⟩)
  · exact .inr (.inr ⟨hnone, hmade, a, ha, k, htree.pathOf_of_find (has a ha) hfind, hprefix⟩)

namespace Bundler

/-- What was written first stays unless something that is written later goes to the same file. -/
theorem delivered_cons {disk disk₁ disk' : Disk} {a : Asset} {as : List Asset} {l : Location}
    (hstores : Disk.Stores disk disk₁ a.path a.content l)
    (hfind : disk'.find true a.path = .ok l) (h : Delivered disk₁ disk' as) :
    Delivered disk disk' (a :: as) where
  number? k := (h.number? k).trans (hstores.number? k)
  kept k := by
    have hfirst : ∀ {k}, disk₁.SameFile l k → disk'.LeadsTo a.path k := fun hk =>
      ⟨l, hfind, (Disk.SameFile.congr h.number?).mpr hk⟩
    rcases h.kept k with he | ⟨hfile, c, hc, hled⟩ | ⟨hnone, hmade, c, hc, m, hm⟩
    · rcases hstores.kept k with he' | ⟨hk, hnode⟩ | ⟨hnone, hmade, hprefix⟩
      · exact .inl (he.trans he')
      · rw [← Disk.node?_eq_of_entryAt? he] at hnode
        exact .inr (.inl ⟨⟨_, hnode⟩, a, List.mem_cons_self, hfirst hk⟩)
      · exact .inr (.inr ⟨hnone, he.trans hmade, a, List.mem_cons_self, l, hfind, hprefix⟩)
    · exact .inr (.inl ⟨hfile, c, List.mem_cons_of_mem a hc, hled⟩)
    · rcases hstores.kept k with he' | ⟨-, hnode⟩ | ⟨-, hmade', -⟩
      · exact .inr (.inr ⟨he'.symm.trans hnone, hmade, c, List.mem_cons_of_mem a hc, m, hm⟩)
      · rw [Disk.node?_eq_none_iff.mpr hnone] at hnode
        cases hnode
      · rw [hnone] at hmade'
        cases hmade'
  stored c hc := by
    have hlater : ∀ e ∈ as, ∀ {m}, disk'.LeadsTo e.path m → disk'.HasLast (a :: as) m := by
      rintro e he m ⟨k, hk, hsame⟩
      obtain ⟨k', hk', hlast⟩ := h.stored e he
      obtain rfl : k = k' := Except.ok.inj (hk.symm.trans hk')
      exact (hlast.of_sameFile hsame).cons a
    rcases List.mem_cons.mp hc with rfl | hc
    · refine ⟨l, hfind, ?_⟩
      by_cases hshared : ∃ e ∈ as, disk'.LeadsTo e.path l
      · obtain ⟨e, he, hled⟩ := hshared
        exact hlater e he hled
      · -- nothing is written to any of its names any more
        have hunchanged : ∀ k, disk'.SameFile l k → (disk₁.node? k).isSome →
            disk'.node? k = disk₁.node? k := by
          intro k hk hthere
          rcases h.kept k with he | ⟨-, e, he, hled⟩ | ⟨hnone, -⟩
          · exact Disk.node?_eq_of_entryAt? he
          · exact absurd ⟨e, he, hled.trans hk.symm⟩ hshared
          · rw [Disk.node?_eq_none_iff.mpr hnone] at hthere
            cases hthere
        rcases hstores.stored with ⟨v, hdevice⟩ | hnames
        · exact .inl ⟨v, (hunchanged l (.refl _ l) (by rw [hdevice]; rfl)).trans hdevice⟩
        · refine .inr ⟨⟨some c.content, disk.now⟩, [], c, as, rfl, rfl, ⟨l, hfind, .refl _ l⟩,
            fun e he hled => hshared ⟨e, he, hled⟩, fun k hk => ?_⟩
          have hnode := hnames k ((Disk.SameFile.congr h.number?).mp hk)
          exact (hunchanged k hk (by rw [hnode]; rfl)).trans hnode
    · obtain ⟨m, hm, -⟩ := h.stored c hc
      exact ⟨m, hm, hlater c hc ⟨m, hm, .refl _ m⟩⟩

theorem delivered_of_writeAll_eq_ok {as : List Asset} (has : ∀ a ∈ as, Disk.Spells a.path)
    {disk : Disk} (hd : disk.Rooted) (h : (writeAll Disk.fileSystem as disk).1 = .ok ()) :
    Disk.SameWays disk (writeAll Disk.fileSystem as disk).2.2 ∧
      Delivered disk (writeAll Disk.fileSystem as disk).2.2 as := by
  induction as generalizing disk with
  | nil =>
      exact ⟨.refl disk, fun _ => rfl, fun _ => .inl rfl, fun a ha => absurd ha List.not_mem_nil⟩
  | cons a as ih =>
      obtain ⟨disk₁, hw, hrest, hfiles⟩ := writeAll_cons_eq_ok h
      rw [List.forall_mem_cons] at has
      rw [hfiles]
      obtain ⟨l, hstores⟩ := hd.writeText has.1 hw
      obtain ⟨hways, hdelivered⟩ := ih has.2 hstores.rooted hrest
      exact ⟨hstores.sameWays.trans hways,
        delivered_cons hstores (hways.find has.1 hstores.find) hdelivered⟩

theorem isTree_of_writeAll_eq_ok {as : List Asset} (has : ∀ a ∈ as, Disk.Spells a.path)
    {disk : Disk} (hd : disk.IsTree) (h : (writeAll Disk.fileSystem as disk).1 = .ok ()) :
    (writeAll Disk.fileSystem as disk).2.2.IsTree := by
  induction as generalizing disk with
  | nil => exact hd
  | cons a as ih =>
      obtain ⟨disk₁, hw, hrest, hfiles⟩ := writeAll_cons_eq_ok h
      rw [List.forall_mem_cons] at has
      obtain ⟨l, hl, hpath⟩ := has.1
      rw [← hpath] at hw
      rw [hfiles]
      exact ih has.2 (hd.writeText hl hw).1 hrest

variable {σ : Type} {fs : FileSystem σ} {b : Bundler} {files : σ}

/-- Nothing is written unless the modules have a fingerprint and all bundles were made. -/
theorem build_files_of_not_generated
    (h : ∀ d fingerprint g, run (fs.view files) b.settings .empty = .ok d →
      Fingerprint.make d.modules b.settings = .ok fingerprint →
      Bundle.generate ⟨b.tools, b.settings, d.modules, fingerprint⟩ ≠ .ok g) (writes : Bool) :
    (b.build fs writes files).files = files := by
  cases hrun : run (fs.view files) b.settings .empty with
  | error e => exact (build_of_run_error hrun writes).2
  | ok d =>
      rw [(build_of_run hrun writes).2]
      cases hmake : Fingerprint.make d.modules b.settings with
      | error e => rw [finish_of_make_error hmake]
      | ok fingerprint =>
          unfold finish deliver
          rw [hmake]
          dsimp only
          split
          · split
            · rfl
            · rename_i g hg
              exact absurd hg (h d fingerprint g hrun hmake)
          · rfl

/-- A build with a path that is no text fails at the latest when it takes the fingerprint, and
nothing is written. -/
theorem build_of_not_isLegible (h : b.settings.isLegible = false) (writes : Bool) :
    (∃ e, (b.build fs writes files).result = .error e) ∧
      (b.build fs writes files).files = files := by
  have hmake : ∀ d fingerprint, Fingerprint.make d b.settings ≠ .ok fingerprint := by
    intro d fingerprint he
    rw [(Fingerprint.make_eq_ok_iff.mp he).1] at h
    cases h
  refine ⟨?_, build_files_of_not_generated (fun d _ _ _ he => absurd he (hmake _ _)) writes⟩
  cases hresult : (b.build fs writes files).result with
  | error e => exact ⟨e, rfl⟩
  | ok out =>
      rw [isLegible_of_result hresult] at h
      cases h

/-- In a directory whose name is no text a module that comes with the options is found, but has no
fingerprint. -/
example : ((ofOptions (⟨[0x2f, 0xff]⟩ : NativePath) Tools.standard { Options.empty with
      inputs := some (.one "a.js")
      inlineSources := some (Assoc.ofList [("a.js", "define('a', [], () => 0)")]) }).toOption.bind
    fun b => (run (Listing.view ∅) b.settings .empty).toOption.map fun d =>
      (b.settings.isLegible, d.visited)) = some (false, ["/\ufffd/a.js"]) := by
  decide +kernel

/-- What a build does to the files, and what it tells its reporter. Whatever the files are kept in,
a build that only generates leaves them alone, and so does one that does not find its modules, take
their fingerprint and make all bundles; and one that succeeds has written the bundles one after the
other, if it was not skipped. The report ends with the failure, if there is one, and says nothing
else that is fatal. On a disk, bundles that are written are delivered; where everything has one name
and is no device, each of them is then at its path, and nothing but the directories above has
changed. -/
theorem effects_of_build (b : Bundler) :
    (∀ {σ : Type} (fs : FileSystem σ) (files : σ),
      (b.build fs false files).files = files ∧
      ((∀ d fingerprint g, run (fs.view files) b.settings .empty = .ok d →
          Fingerprint.make d.modules b.settings = .ok fingerprint →
          Bundle.generate ⟨b.tools, b.settings, d.modules, fingerprint⟩ ≠ .ok g) →
        (b.build fs true files).files = files) ∧
      (∀ out, (b.build fs true files).result = .ok out → out.isSkipped = false →
        (writeAll fs out.assets files).1 = .ok () ∧
          (b.build fs true files).files = (writeAll fs out.assets files).2.2) ∧
      ∀ writes, match (b.build fs writes files).result with
        | .ok _ => Calm (b.build fs writes files).log
        | .error e => ∃ front, Calm front ∧
            (b.build fs writes files).log = front ++ [⟨.fatal, e.text⟩]) ∧
    ∀ (o : Options NativePath) current, o.settings current = .ok b.settings →
      Path.isAbsolute (o.directory current).spelled = true →
      ∀ (disk disk' : Disk) out, disk.Rooted →
      (b.build Disk.fileSystem true disk).result = .ok out → out.isSkipped = false →
      (b.build Disk.fileSystem true disk).files = disk' →
      Delivered disk disk' out.assets ∧
      (∀ a ∈ out.assets,
        (∀ l v, disk'.find true a.path = .ok l → disk'.node? l ≠ some (.device v)) →
        (∀ c ∈ out.assets, ∀ l, disk'.find true a.path = .ok l → disk'.LeadsTo c.path l → c = a) →
        a.OnDisk disk'.view) ∧
      (disk.IsTree → (∀ a ∈ out.assets, a.OnDisk disk'.view) ∧
        ∀ l, disk'.entryAt? l = disk.entryAt? l ∨ (∃ a ∈ out.assets, Disk.pathOf l = a.path) ∨
          disk.entryAt? l = none ∧ disk'.entryAt? l = some .directory ∧
            ∃ a ∈ out.assets, ∃ k, Disk.pathOf k = a.path ∧ l <+: k) := by
  refine ⟨fun fs files => ⟨build_false_files fs b files,
    fun h => build_files_of_not_generated h true, fun out hout hnot => ?_, fun writes => ?_⟩, ?_⟩
  · obtain ⟨d, -, -, -, ⟨hskipped, -⟩ | ⟨-, g, -, hassets, hw, hfiles⟩⟩ := build_eq_ok hout
    · rw [hnot] at hskipped
      cases hskipped
    · rw [hassets]
      exact ⟨hw, hfiles⟩
  · obtain ⟨front, hcalm, hlog⟩ := log_of_build fs writes b files
    cases hresult : (b.build fs writes files).result with
    | ok out =>
        rw [hresult, lastWords, List.append_nil] at hlog
        dsimp only
        rwa [hlog]
    | error e =>
        rw [hresult] at hlog
        exact ⟨front, hcalm, hlog⟩
  · rintro o current hnative habsolute disk disk' out hd hout hnot rfl
    -- settings with a path that is no text are not built, and all others are settings of texts
    obtain ⟨o', current', hs, hdirectory⟩ :=
      Options.exists_settings_of_isLegible hnative (isLegible_of_result hout) habsolute
    obtain ⟨hpaths, -⟩ := Disk.spells_of_settings hs hdirectory
    obtain ⟨d, -, -, -, ⟨hskipped, -⟩ | ⟨-, g, hg, hassets, hw, hfiles⟩⟩ := build_eq_ok hout
    · rw [hnot] at hskipped
      cases hskipped
    · rw [hassets, hfiles]
      have hspelled : ∀ a ∈ g.assets, Disk.Spells a.path := fun a ha =>
        hpaths a.path (path_mem_of_generate hg ha)
      have hdelivered := (delivered_of_writeAll_eq_ok hspelled hd hw).2
      refine ⟨hdelivered, fun a => hdelivered.onDisk, fun htree => ⟨?_, ?_⟩⟩
      · have hn := (Options.settings_eq_ok hs).2
        exact onDisk_of_generate (htree.separates hpaths) hn hg hw
      · exact hdelivered.entryAt?_of_isTree (isTree_of_writeAll_eq_ok hspelled htree hw) hspelled

/-- Where there is no file, a build that succeeds has made its bundles. -/
theorem assets_of_bare {disk : Disk} (hbare : disk.Bare) {d : Discovery} {out : Outcome}
    (hrun : run disk.view b.settings .empty = .ok d)
    (h : (b.build Disk.fileSystem true disk).result = .ok out) :
    out.isSkipped = false ∧ ∀ g, Bundle.generate ⟨b.tools, b.settings, d.modules,
      Fingerprint.of d.modules b.settings⟩ = .ok g → out.assets = g.assets := by
  obtain ⟨d', hrun', -, -, hend⟩ := build_eq_ok h
  obtain rfl : d = d' := Except.ok.inj (hrun.symm.trans hrun')
  rcases hend with ⟨-, -, hprevious, -⟩ | ⟨hnot, g, hg, hassets, -⟩
  · rw [Disk.fileSystem, previous?_of_bare hbare] at hprevious
    cases hprevious
  · refine ⟨hnot, fun g' hg' => ?_⟩
    obtain rfl : g = g' := Except.ok.inj (hg.symm.trans hg')
    exact hassets

/-- On a disk without files both bundles of `covering` are delivered. -/
theorem effects_of_build_covering : ∃ b out, ofOptions "/" coveringTools covering = .ok b ∧
    (b.build Disk.fileSystem true Disk.blank).result = .ok out ∧ out.isSkipped = false ∧
    out.assets.length = 2 ∧
    Delivered Disk.blank (b.build Disk.fileSystem true Disk.blank).files out.assets ∧
    ∀ a ∈ out.assets, a.OnDisk (Disk.view (b.build Disk.fileSystem true Disk.blank).files) := by
  obtain ⟨s, d, hs, -, -, hinput, houtputs, hrun, hvisited⟩ := covering_settings
  obtain ⟨out, -, -, hblank, hout, -⟩ := covering_built hs hinput houtputs hrun hvisited
  obtain ⟨hnot, hassets⟩ := assets_of_bare Disk.bare_blank hblank hout
  obtain ⟨-, hdisk⟩ := effects_of_build ⟨s, coveringTools, .empty⟩
  obtain ⟨hdelivered, -, htree⟩ :=
    hdisk covering.native (PathForm.ofText "/") ((Options.settings_native covering "/").trans hs)
      (by decide) Disk.blank _ out Disk.isTree_blank.rooted hout hnot rfl
  refine ⟨⟨s, coveringTools, .empty⟩, out, by rw [ofOptions, hs], hout, hnot, ?_, hdelivered,
    (htree Disk.isTree_blank).1⟩
  obtain ⟨g, text, cover, hg, -, hboth⟩ :=
    covering_assets houtputs d.modules (Fingerprint.of d.modules s)
  rw [hassets g hg, hboth]
  rfl

theorem rooted_linked (name : String) : (Disk.linked name none).Rooted := by
  intro l last n h
  obtain ⟨e, hmem, -⟩ := Disk.exists_mem_of_node? (by simp) h
  have hl : l = [] := by
    have he := (Prod.mk.inj (List.mem_singleton.mp hmem)).1
    simpa using congrArg List.dropLast he
  rw [hl]
  rfl

/-- Where the source bundle is a link to the development bundle, it is not there with its text
after both have been written. -/
theorem effects_of_build_linked : ∃ b out a, ofOptions "/" Tools.standard sourcing = .ok b ∧
    (Disk.linked "a.src.js" none).Rooted ∧
    (b.build Disk.fileSystem true (Disk.linked "a.src.js" none)).result = .ok out ∧
    out.isSkipped = false ∧ a ∈ out.assets ∧
    ¬ a.OnDisk
      (Disk.view (b.build Disk.fileSystem true (Disk.linked "a.src.js" none)).files) := by
  obtain ⟨s, d, hs, -, hhash, hinput, houtputs, hrun, hvisited⟩ := sourcing_settings
  have hname : "a.src.js" ∈ Disk.linkNames := by decide
  have hlinked := run_of_missing (Disk.isFile_linked_module hname none) hs hinput hrun hvisited
  obtain ⟨g, code, text, hg, htext, hboth⟩ :=
    sourcing_assets houtputs d.modules (Fingerprint.of d.modules s)
  obtain ⟨⟨out, hout⟩, hfiles⟩ := build_linked (b := ⟨s, Tools.standard, .empty⟩)
    (Options.isLegible_of_settings hs) hname hlinked hg hboth (.inr rfl) (.inl rfl)
  obtain ⟨hnot, hassets⟩ := assets_of_bare (Disk.bare_linked "a.src.js") hlinked hout
  have hsource : (⟨.source, "/a.src.js", code⟩ : Asset) ∈ g.assets := by simp [hboth]
  refine ⟨⟨s, Tools.standard, .empty⟩, out, _, by rw [ofOptions, hs], rooted_linked _, hout, hnot,
    (hassets g hg).symm ▸ hsource, ?_⟩
  rw [hfiles]
  refine not_onDisk_linked hg hsource ?_
  rw [Fingerprint.of] at htext
  rw [Bundle.read?_development htext, hhash]
  rfl

end Bundler

end DefineBundle
