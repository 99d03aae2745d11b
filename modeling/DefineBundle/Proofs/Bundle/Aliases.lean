import DefineBundle.Bundle.Minified
import DefineBundle.Proofs.Bundle.FileMembers
import DefineBundle.Proofs.Bundle.Making
import DefineBundle.Proofs.Bundle.Renamed

/-!
# Global names in a bundle

A mapped id that is declared gets its global name once, through its last declaration. In a minified
bundle the global names stand behind the statements of all files, so each publishes the definition
that the loader keeps. In a readable bundle a global name stands behind the file of that last
declaration; but files stand in the order of their first modules, so another file that declares the
id may come later still, and then the loader keeps that definition and the name holds another one.
-/
namespace DefineBundle.Bundle

open DefineBundle.Discovery (run inlineOptions inlineRun of_inlineRun)
open DefineBundle.Script DefineBundle.Script.Tree
open DefineBundle.Text

/-- A part of a readable bundle. -/
inductive Part where
  | source (f : BundleFile)
  | global (id name : String)
  | expose (ids : List String)
  deriving DecidableEq, Repr

namespace Part

def text : Part → List Char
  | source f =>
      "// Included from: ".toList ++ f.path.toList ++ ['\n', '\n'] ++ trim f.source.toList
  | global id name => '\n' :: aliasStatement id name
  | expose ids => exposeCall ids

/-- The modules that a part defines, one after the other. -/
def defines : Part → List ModuleRecord
  | source f => f.members.map Member.record
  | _ => []

end Part

def globalParts (us : List Member) : List Part :=
  us.filterMap fun u => u.globalName.map (.global u.record.id)

/-- A file with the global names of its modules. -/
def fileParts (f : BundleFile) : List Part :=
  .source f :: globalParts f.members

/-- The parts of a readable bundle, by sections. -/
def sectionParts (s : Settings) (ms : List ModuleRecord) : List (List Part) :=
  (files (members s.globalModules ms)).map fileParts ++
    if (exposedIds ms).isEmpty then [] else [[.expose (exposedIds ms)]]

/-- The parts of a readable bundle in their order. -/
def parts (s : Settings) (ms : List ModuleRecord) : List Part :=
  (sectionParts s ms).flatten

/-- The module that the loader holds for an id after some parts: of several with that id the last.
-/
def kept (id : String) (ps : List Part) : Option ModuleRecord :=
  ((ps.flatMap Part.defines).filter (·.id = id)).getLast?

theorem readable_eq_parts (s : Settings) (ms : List ModuleRecord) : ∃ front back,
    splitFirst? Loader.codePlace Loader.inlineText = some (front, back) ∧
    readable none s ms = .ok (withBanner s (trimEnd front ++ (['\n', '\n'] ++
      joinWith ['\n', '\n'] ((sectionParts s ms).map (·.flatMap Part.text))) ++ back)) := by
  have hnames : ∀ f : BundleFile, (globalParts f.members).flatMap Part.text = aliasLines f := by
    intro f
    unfold globalParts aliasLines
    induction f.members with
    | nil => rfl
    | cons u us ih =>
        rw [List.flatMap_cons, ← ih, List.filterMap_cons]
        cases u.globalName <;> rfl
  have hfile : ∀ f : BundleFile, (fileParts f).flatMap Part.text = fileSection f f.source := by
    intro f
    unfold fileParts
    rw [List.flatMap_cons, hnames]
    rfl
  have hwritten : ∀ fs : List BundleFile, (fs.mapM fun f => do
      return fileSection f (← instrumented none f) : Except Failure _) =
        .ok ((fs.map fileParts).map (·.flatMap Part.text)) := by
    intro fs
    rw [List.map_map]
    exact mapM_eq_ok_map fun f _ => congrArg Except.ok (hfile f).symm
  have hsections : sections none s ms = .ok ((sectionParts s ms).map (·.flatMap Part.text)) := by
    rw [sections, hwritten, sectionParts, List.map_append]
    have hlast : ∀ b : Bool, (if b then [] else [[Part.expose (exposedIds ms)]]).map
        (·.flatMap Part.text) = if b then [] else [exposeCall (exposedIds ms)] := by
      rintro (_ | _)
      · exact congrArg (fun cs => [cs]) (List.append_nil _)
      · rfl
    rw [hlast]
    rfl
  obtain ⟨cs, hcs⟩ := inlineText_eq
  obtain ⟨bundle, hbundle, -⟩ := exists_insertCode? hcs
    (['\n', '\n'] ++ joinWith ['\n', '\n'] ((sectionParts s ms).map (·.flatMap Part.text)))
  have hsplit := hbundle
  rw [Loader.insertCode?, Option.map_eq_some_iff] at hsplit
  obtain ⟨⟨front, back⟩, hsplit, rfl⟩ := hsplit
  exact ⟨front, back, hsplit, bind_eq_ok hsections (bind_eq_ok (placed_eq_ok_iff.mpr hbundle) rfl)⟩

/-- A part declares an id. -/
def Part.Declares (id : String) (p : Part) : Prop :=
  ∃ r ∈ p.defines, r.id = id

theorem kept_append (id : String) (ps qs : List Part) :
    kept id (ps ++ qs) = (kept id qs).or (kept id ps) := by
  rw [kept, List.flatMap_append, List.filter_append, List.getLast?_append]
  rfl

theorem kept_eq_none_iff {id : String} {ps : List Part} :
    kept id ps = none ↔ ∀ p ∈ ps, ¬ p.Declares id := by
  simp only [kept, List.getLast?_eq_none_iff, List.filter_eq_nil_iff, List.mem_flatMap,
    decide_eq_true_eq, Part.Declares]
  constructor
  · rintro h p hp ⟨r, hr, he⟩
    exact h r ⟨p, hp, hr⟩ he
  · rintro h r ⟨p, hp, hr⟩ he
    exact h p hp ⟨r, hr, he⟩

theorem exists_of_kept {id : String} {ps : List Part} {r : ModuleRecord} (h : kept id ps = some r) :
    ∃ p ∈ ps, r ∈ p.defines := by
  have hmem := List.mem_of_mem_filter (List.mem_of_getLast? h)
  exact List.mem_flatMap.mp hmem

theorem not_declares_of_mem_globalParts {us : List Member} {p : Part} (hp : p ∈ globalParts us)
    (id : String) : ¬ p.Declares id := by
  obtain ⟨u, -, hu⟩ := List.mem_filterMap.mp hp
  obtain ⟨g, -, rfl⟩ := Option.map_eq_some_iff.mp hu
  rintro ⟨r, hr, -⟩
  cases hr

theorem global_notMem_globalParts {id : String} {us : List Member}
    (h : ∀ u ∈ us, u.record.id = id → u.globalName = none) (g : String) :
    .global id g ∉ globalParts us := by
  intro hp
  obtain ⟨u, hu, hglobal⟩ := List.mem_filterMap.mp hp
  obtain ⟨g', hg', he⟩ := Option.map_eq_some_iff.mp hglobal
  obtain ⟨hid, -⟩ := Part.global.inj he
  rw [h u hu hid] at hg'
  cases hg'

theorem global_notMem_fileParts {id : String} {f : BundleFile}
    (h : ∀ u ∈ f.members, u.record.id = id → u.globalName = none) (g : String) :
    .global id g ∉ fileParts f := by
  rw [fileParts, List.mem_cons, not_or]
  exact ⟨Part.noConfusion, global_notMem_globalParts h g⟩

section
variable {globals : Assoc String} {ms before after : List ModuleRecord} {m : ModuleRecord}

/-- Of the modules of one id only the last carries the global name. -/
theorem exists_members (globals : Assoc String) (hms : ms = before ++ m :: after)
    (hlast : ∀ r ∈ after, r.id ≠ m.id) :
    ∃ us us', members globals ms = us ++ ⟨m, globals.get? m.id⟩ :: us' ∧
      (∀ u ∈ us, u.record.id = m.id → u.globalName = none) ∧ ∀ u ∈ us', u.record.id ≠ m.id := by
  subst hms
  induction before with
  | nil =>
      have hany : (after.any fun later => later.id == m.id) = false := by simpa using hlast
      refine ⟨[], members globals after, by simp [members, hany], by simp, fun u hu => ?_⟩
      have hrecord := List.mem_map_of_mem (f := Member.record) hu
      rw [map_record_members] at hrecord
      exact hlast _ hrecord
  | cons r before ih =>
      obtain ⟨us, us', hus, hnone, hno⟩ := ih
      refine ⟨⟨r, if (before ++ m :: after).any fun later => later.id == r.id then none
        else globals.get? r.id⟩ :: us, us', ?_, ?_, hno⟩
      · rw [List.cons_append, members, hus, List.cons_append]
      · rw [List.forall_mem_cons]
        refine ⟨fun he => ?_, hnone⟩
        have hany : ((before ++ m :: after).any fun later => later.id == r.id) = true := by
          simpa using .inr (.inl he.symm)
        rw [hany]
        rfl

theorem filter_globalNames (globals : Assoc String) (ms : List ModuleRecord) (id : String) :
    (globalNames globals ms).filter (·.1 = id) =
      if id ∈ ms.map ModuleRecord.id then ((globals.get? id).map fun g => (id, g)).toList
      else [] := by
  have hpairs : ∀ {ids : List String}, ids.Nodup →
      (ids.filterMap fun i => (globals.get? i).map fun g => (i, g)).filter (·.1 = id) =
        if id ∈ ids then ((globals.get? id).map fun g => (id, g)).toList else [] := by
    intro ids hids
    induction ids with
    | nil => rfl
    | cons i ids ih =>
        obtain ⟨hi, hids⟩ := List.nodup_cons.mp hids
        rw [List.filterMap_cons]
        by_cases he : i = id
        · subst he
          cases globals.get? i <;> simp [ih hids, hi]
        · cases globals.get? i <;> simp [ih hids, he, Ne.symm he]
  rw [globalNames, hpairs (nodup_eraseDups _)]
  simp only [List.mem_eraseDups]

theorem mem_files_of_mem (globals : Assoc String) {r : ModuleRecord} (hr : r ∈ ms) :
    ∃ f ∈ files (members globals ms), r ∈ (Part.source f).defines := by
  have hpath : r.path ∈ (files (members globals ms)).map BundleFile.path := by
    rw [← fileOrder, fileOrder_eq, List.mem_eraseDups]
    exact List.mem_map_of_mem hr
  obtain ⟨f, hf, hp⟩ := List.mem_map.mp hpath
  have hrecord : r ∈ (members globals ms).map Member.record := by rwa [map_record_members]
  obtain ⟨u, hu, rfl⟩ := List.mem_map.mp hrecord
  refine ⟨f, hf, List.mem_map.mpr ⟨u, ?_, rfl⟩⟩
  rw [(gathers_of_mem_files hf).members]
  exact List.mem_filter.mpr ⟨hu, by simp [hp]⟩

theorem of_mem_defines {f : BundleFile} (hf : f ∈ files (members globals ms)) {r : ModuleRecord}
    (hr : r ∈ (Part.source f).defines) : r ∈ ms ∧ r.path = f.path := by
  obtain ⟨u, hu, rfl⟩ := List.mem_map.mp hr
  rw [(gathers_of_mem_files hf).members, List.mem_filter] at hu
  have hrecord := List.mem_map_of_mem (f := Member.record) hu.1
  rw [map_record_members] at hrecord
  exact ⟨hrecord, by simpa using hu.2⟩

/-- The place of the last module of an id in a bundle: among the modules of the file `f`. -/
structure LastPlace (globals : Assoc String) (ms : List ModuleRecord) (m : ModuleRecord)
    (fs : List BundleFile) (f : BundleFile) (fs' : List BundleFile) (us us' : List Member) :
    Prop where
  files_eq : files (members globals ms) = fs ++ f :: fs'
  path_eq : f.path = m.path
  notMem_before : m.path ∉ fs.map BundleFile.path
  apart : ∀ f' ∈ fs', f'.path ≠ m.path ∧ f'.path ∉ fs.map BundleFile.path
  members_eq : f.members = us ++ ⟨m, globals.get? m.id⟩ :: us'
  unnamed : ∀ u ∈ us, u.record.id = m.id → u.globalName = none
  last : ∀ u ∈ us', u.record.id ≠ m.id
  elsewhere : ∀ f' ∈ fs ++ fs', ∀ u ∈ f'.members, u.record.id = m.id → u.globalName = none

theorem exists_lastPlace (globals : Assoc String) (hms : ms = before ++ m :: after)
    (hlast : ∀ r ∈ after, r.id ≠ m.id) :
    ∃ fs f fs' us us', LastPlace globals ms m fs f fs' us us' := by
  obtain ⟨us, us', hus, hnone, hno⟩ := exists_members globals hms hlast
  obtain ⟨f, hf, hmf⟩ := mem_files_of_mem globals (show m ∈ ms by simp [hms])
  have hpath : m.path = f.path := (of_mem_defines hf hmf).2
  obtain ⟨fs, fs', hfs⟩ := List.append_of_mem hf
  have hnodup := nodup_map_path_files (members globals ms)
  rw [hfs, List.map_append, List.map_cons, List.nodup_append, List.nodup_cons, ← hpath] at hnodup
  obtain ⟨-, ⟨hfs', -⟩, hapart⟩ := hnodup
  have hbefore : m.path ∉ fs.map BundleFile.path := fun h =>
    hapart _ h _ List.mem_cons_self rfl
  have hbehind : ∀ f' ∈ fs', f'.path ≠ m.path ∧ f'.path ∉ fs.map BundleFile.path :=
    fun f' hf' => ⟨fun he => hfs' (List.mem_map.mpr ⟨f', hf', he⟩), fun h =>
      hapart _ h _ (List.mem_cons_of_mem _ (List.mem_map_of_mem hf')) rfl⟩
  refine ⟨fs, f, fs', us.filter (·.record.path = f.path), us'.filter (·.record.path = f.path),
    hfs, hpath.symm, hbefore, hbehind, ?_, fun u hu => hnone u (List.mem_of_mem_filter hu),
    fun u hu => hno u (List.mem_of_mem_filter hu), fun f' hf' u hu he => ?_⟩
  · rw [(gathers_of_mem_files hf).members, hus, List.filter_append,
      List.filter_cons_of_pos (by simp [hpath])]
  · have hf'files : f' ∈ files (members globals ms) := by
      rw [hfs]
      rcases List.mem_append.mp hf' with h | h <;> simp [h]
    rw [(gathers_of_mem_files hf'files).members, hus, List.mem_filter, List.mem_append,
      List.mem_cons, decide_eq_true_eq] at hu
    obtain ⟨hu | rfl | hu, hp⟩ := hu
    · exact hnone u hu he
    · rcases List.mem_append.mp hf' with h | h
      · exact absurd (List.mem_map.mpr ⟨f', h, hp.symm⟩) hbefore
      · exact absurd hp.symm (hbehind f' h).1
    · exact absurd he (hno u hu)

section
variable {s : Settings} {fs fs' : List BundleFile} {f : BundleFile} {us us' : List Member}
  {g : String}

def frontParts (fs : List BundleFile) (f : BundleFile) (us : List Member) : List Part :=
  fs.flatMap fileParts ++ .source f :: globalParts us

def backParts (ms : List ModuleRecord) (fs' : List BundleFile) (us' : List Member) : List Part :=
  globalParts us' ++ (fs'.flatMap fileParts ++
    if (exposedIds ms).isEmpty then [] else [.expose (exposedIds ms)])

theorem exists_file_of_mem_backParts {p : Part} (hp : p ∈ backParts ms fs' us')
    {r : ModuleRecord} (hr : r ∈ p.defines) : ∃ f' ∈ fs', .source f' = p := by
  have hglobals : ∀ {vs : List Member}, p ∉ globalParts vs := fun h =>
    not_declares_of_mem_globalParts h r.id ⟨r, hr, rfl⟩
  simp only [backParts, List.mem_append, hglobals, List.mem_flatMap, false_or] at hp
  rcases hp with ⟨f', hf', hp⟩ | hp
  · rw [fileParts, List.mem_cons, or_iff_left hglobals] at hp
    exact ⟨f', hf', hp.symm⟩
  · split at hp
    · cases hp
    · obtain rfl := List.mem_singleton.mp hp
      cases hr

namespace LastPlace

variable (h : LastPlace s.globalModules ms m fs f fs' us us')
include h

theorem parts_eq (hg : s.globalModules.get? m.id = some g) :
    parts s ms = frontParts fs f us ++ .global m.id g :: backParts ms fs' us' := by
  have hexpose : (if (exposedIds ms).isEmpty then [] else [[Part.expose (exposedIds ms)]]).flatten =
      if (exposedIds ms).isEmpty then [] else [.expose (exposedIds ms)] := by
    split <;> rfl
  have hfile : fileParts f =
      .source f :: (globalParts us ++ .global m.id g :: globalParts us') := by
    rw [fileParts, h.members_eq, hg]
    simp [globalParts]
  rw [parts, sectionParts, List.flatten_append, hexpose, h.files_eq, ← List.flatMap_def,
    List.flatMap_append, List.flatMap_cons, hfile, frontParts, backParts]
  simp

theorem global_notMem (g : String) :
    .global m.id g ∉ frontParts fs f us ++ backParts ms fs' us' := by
  have hfiles : ∀ {gs : List BundleFile}, (∀ f' ∈ gs, f' ∈ fs ++ fs') →
      .global m.id g ∉ gs.flatMap fileParts := by
    intro gs hgs hp
    obtain ⟨f', hf', hp⟩ := List.mem_flatMap.mp hp
    exact global_notMem_fileParts (h.elsewhere f' (hgs f' hf')) g hp
  have hlater : ∀ u ∈ us', u.record.id = m.id → u.globalName = none := fun u hu he =>
    absurd he (h.last u hu)
  have hexpose : Part.global m.id g ∉
      if (exposedIds ms).isEmpty then [] else [Part.expose (exposedIds ms)] := by
    split <;> simp
  simp only [frontParts, backParts, List.mem_append, List.mem_cons, reduceCtorEq, false_or, not_or]
  exact ⟨⟨hfiles fun _ hf' => List.mem_append_left _ hf', global_notMem_globalParts h.unnamed g⟩,
    global_notMem_globalParts hlater g, hfiles fun _ hf' => List.mem_append_right _ hf', hexpose⟩

/-- In front of the global name, the module is the last that is defined. -/
theorem kept_front : kept m.id (frontParts fs f us) = some m := by
  have hglobals : kept m.id (globalParts us) = none :=
    kept_eq_none_iff.mpr fun p hp => not_declares_of_mem_globalParts hp m.id
  have hlater : (us'.map Member.record).filter (·.id = m.id) = [] :=
    List.filter_eq_nil_iff.mpr (by simpa using h.last)
  have hsource : kept m.id [.source f] = some m := by
    simp [kept, Part.defines, h.members_eq, hlater]
  rw [frontParts, ← List.singleton_append, kept_append, kept_append, hglobals, hsource]
  rfl

theorem kept_eq_iff (hg : s.globalModules.get? m.id = some g) :
    kept m.id (parts s ms) = some m ↔ ∀ p ∈ backParts ms fs' us', ¬ p.Declares m.id := by
  have hglobal : kept m.id [.global m.id g] = none := rfl
  have hfront : kept m.id (frontParts fs f us ++ [.global m.id g]) = some m := by
    rw [kept_append, hglobal, h.kept_front]
    rfl
  rw [h.parts_eq hg, ← List.singleton_append, ← List.append_assoc, kept_append, hfront,
    ← kept_eq_none_iff]
  cases hback : kept m.id (backParts ms fs' us') with
  | none => simp
  | some r =>
      obtain ⟨p, hp, hr⟩ := exists_of_kept hback
      obtain ⟨f', hf', rfl⟩ := exists_file_of_mem_backParts hp hr
      have hfile : f' ∈ files (members s.globalModules ms) := by simp [h.files_eq, hf']
      have hne : r ≠ m := by
        rintro rfl
        exact (h.apart f' hf').1 (of_mem_defines hfile hr).2.symm
      simp [hne]

theorem forall_not_declares_iff (hm : m ∈ ms) :
    (∀ p ∈ backParts ms fs' us', ¬ p.Declares m.id) ↔
      ∀ r ∈ ms, r.id = m.id → r.path = m.path ∨ Precedes ms r.path m.path := by
  have hprecedes : ∀ r ∈ ms, Precedes ms r.path m.path ↔ r.path ∈ fs.map BundleFile.path := by
    intro r hr
    rw [← fileOrder_lt_iff s.globalModules hr hm, fileOrder, h.files_eq, List.map_append,
      List.map_cons, h.path_eq, idxOf_lt_idxOf_append_cons h.notMem_before]
  constructor
  · intro hnone r hr hid
    obtain ⟨f', hf', hrf'⟩ := mem_files_of_mem s.globalModules hr
    have hp : r.path = f'.path := (of_mem_defines hf' hrf').2
    rw [h.files_eq, List.mem_append, List.mem_cons] at hf'
    rcases hf' with hf' | rfl | hf'
    · exact .inr ((hprecedes r hr).mpr (hp ▸ List.mem_map_of_mem hf'))
    · exact .inl (hp.trans h.path_eq)
    · have hback : .source f' ∈ backParts ms fs' us' := by
        have hparts : .source f' ∈ fs'.flatMap fileParts :=
          List.mem_flatMap.mpr ⟨f', hf', List.mem_cons_self⟩
        simp [backParts, hparts]
      exact absurd ⟨r, hrf', hid⟩ (hnone _ hback)
  · rintro hall p hp ⟨r, hr, hid⟩
    obtain ⟨f', hf', rfl⟩ := exists_file_of_mem_backParts hp hr
    have hfile : f' ∈ files (members s.globalModules ms) := by simp [h.files_eq, hf']
    obtain ⟨hrms, hrp⟩ := of_mem_defines hfile hr
    rcases hall r hrms hid with hown | hprec
    · exact (h.apart f' hf').1 (hrp.symm.trans hown)
    · exact (h.apart f' hf').2 (hrp ▸ (hprecedes r hrms).mp hprec)

end LastPlace

end

end

theorem exists_statements_of_run {o : Options} {current : String} {view : FileView} {s : Settings}
    {d : Discovery} (hs : o.settings current = .ok s) (hrun : run view s .empty = .ok d) :
    ∀ m ∈ d.modules, ∃ ts, statements? m.source = some ts := by
  intro m hm
  obtain ⟨es, hx⟩ := Discovery.exists_isExact hs hrun
  obtain ⟨t, ds, ⟨-, hds⟩, -, hrecords⟩ := hx.modules m.path (hx.path_mem m hm)
  have hrecord : m ∈ d.modules.filter (·.path = m.path) := List.mem_filter.mpr ⟨hm, by simp⟩
  rw [hrecords] at hrecord
  obtain ⟨_, -, he⟩ := List.mem_map.mp hrecord
  rw [← congrArg ModuleRecord.source he]
  unfold declarationsOf at hds
  unfold statements?
  cases hparse : parse? (s.tokens.substitute t.text) with
  | none =>
      rw [hparse] at hds
      cases hds
  | some tree => exact ⟨tree.parts, rfl⟩

/-- A mapped id without a module has no global name in a bundle. One that is declared has exactly
one statement for it in a readable bundle, and one in a minified bundle, where it stands behind the
statements of all files. In a readable bundle it publishes the last declaration, which is what the
loader keeps just when no file behind it declares the id; and that is so just when every other file
that declares the id has a module in front of those of the file of the last declaration. -/
theorem global_published {o : Options} {current : String} {view : FileView} {s : Settings}
    {d : Discovery} (hs : o.settings current = .ok s) (hrun : run view s .empty = .ok d)
    {id g : String} (hg : s.globalModules.get? id = some g) :
    (∃ front back, splitFirst? Loader.codePlace Loader.inlineText = some (front, back) ∧
      readable none s d.modules = .ok (withBanner s (trimEnd front ++ (['\n', '\n'] ++
        joinWith ['\n', '\n'] ((sectionParts s d.modules).map (·.flatMap Part.text))) ++ back))) ∧
    (∃ frame : Frame, script s d.modules = .ok (frame.fill (prologue (shortNames s d.modules) ++
      renameDefinesAmong (shortNames s d.modules).get? (written s.globalModules d.modules) ++
        ((globalNames s.globalModules d.modules).map (aliasTree (shortNames s d.modules)) ++
          if (exposedIds d.modules).isEmpty then []
          else [exposeTree (shortNames s d.modules) (exposedIds d.modules)])))) ∧
    ((∀ r ∈ d.modules, r.id ≠ id) → (∀ g', .global id g' ∉ parts s d.modules) ∧
      ∀ e ∈ globalNames s.globalModules d.modules, e.1 ≠ id) ∧
    ∀ before m after, d.modules = before ++ m :: after → m.id = id → (∀ r ∈ after, r.id ≠ id) →
      (globalNames s.globalModules d.modules).filter (·.1 = id) = [(id, g)] ∧
      ∃ front back, parts s d.modules = front ++ .global id g :: back ∧
        (∀ g', .global id g' ∉ front ++ back) ∧ kept id front = some m ∧
        (kept id (parts s d.modules) = some m ↔ ∀ p ∈ back, ¬ p.Declares id) ∧
        ((∀ p ∈ back, ¬ p.Declares id) ↔
          ∀ r ∈ d.modules, r.id = id → r.path = m.path ∨ Precedes d.modules r.path m.path) := by
  obtain ⟨frame, -, hscript⟩ := exists_frame_script
  refine ⟨readable_eq_parts s d.modules,
    ⟨frame, hscript s d.modules (exists_statements_of_run hs hrun)⟩, fun hno => ⟨?_, ?_⟩, ?_⟩
  · intro g' hp
    obtain ⟨ps, hps, hp⟩ := List.mem_flatten.mp hp
    rcases List.mem_append.mp hps with hps | hps
    · obtain ⟨f, hf, rfl⟩ := List.mem_map.mp hps
      refine global_notMem_fileParts (fun u hu he => ?_) g' hp
      exact absurd he (hno _ (of_mem_defines hf (List.mem_map_of_mem hu)).1)
    · split at hps
      · cases hps
      · rw [List.mem_singleton.mp hps] at hp
        simp at hp
  · intro e he hid
    have hnone := filter_globalNames s.globalModules d.modules id
    rw [if_neg (by simpa using hno)] at hnone
    exact List.filter_eq_nil_iff.mp hnone e he (by simpa using hid)
  · rintro before m after hms rfl hlast
    obtain ⟨fs, f, fs', us, us', hplace⟩ := exists_lastPlace s.globalModules hms hlast
    have hm : m ∈ d.modules := by simp [hms]
    refine ⟨?_, frontParts fs f us, backParts d.modules fs' us', hplace.parts_eq hg,
      hplace.global_notMem, hplace.kept_front, hplace.kept_eq_iff hg,
      hplace.forall_not_declares_iff hm⟩
    rw [filter_globalNames, if_pos (List.mem_map_of_mem hm), hg]
    rfl

/-- Two files with modules of one id, which has a global name; the first file asks for the second.
-/
def duplicated (first second : String) : Options :=
  { inlineOptions ["a.js"] [("a.js", first), ("z.js", second)] with
    globalModules := some (Assoc.ofList [("x", "X")]) }

/-- When the first file starts with its module of that id, the last one is in the second file. -/
def duplicatedInOrder : Options :=
  duplicated "define('x', [], () => 1); define('y', ['z'], (z) => z)"
    "define('z', [], () => 2); define('x', [], () => 3)"

theorem global_published_in_order : ∃ s d m, duplicatedInOrder.settings "/" = .ok s ∧
    run (Listing.view ∅) s .empty = .ok d ∧ s.globalModules.get? "x" = some "X" ∧
    m.path = "/z.js" ∧ ∃ front back, parts s d.modules = front ++ .global "x" "X" :: back ∧
      kept "x" front = some m ∧ kept "x" (parts s d.modules) = some m := by
  have hfound : (inlineRun duplicatedInOrder).map (fun r =>
      (r.2.modules.map fun m => (m.id, m.path), r.1.globalModules.get? "x")) =
      some ([("x", "/a.js"), ("z", "/z.js"), ("x", "/z.js"), ("y", "/a.js")], some "X") := by
    decide +kernel
  obtain ⟨⟨s, d⟩, hrun, he⟩ := Option.map_eq_some_iff.mp hfound
  obtain ⟨hs, hd⟩ := of_inlineRun hrun
  simp only [Prod.mk.injEq] at he
  obtain ⟨hm, hg⟩ := he
  simp only [List.map_eq_cons_iff, List.map_eq_nil_iff, Prod.mk.injEq] at hm
  obtain ⟨a, _, hms, ⟨haid, hap⟩, b, _, rfl, ⟨hbid, hbp⟩, c, _, rfl, ⟨hcid, hcp⟩, e, _, rfl,
    ⟨heid, hep⟩, rfl⟩ := hm
  obtain ⟨-, -, -, hsplit⟩ := global_published hs hd hg
  obtain ⟨-, front, back, hparts, -, hfront, hkept, hdeclares⟩ :=
    hsplit [a, b] c [e] (by simp [hms]) hcid (by simp [heid])
  refine ⟨s, d, c, hs, hd, hg, hcp, front, back, hparts, hfront,
    hkept.mpr (hdeclares.mpr fun r hr hid => ?_)⟩
  have hprecedes : Precedes d.modules a.path c.path :=
    ⟨0, a, by simp [hms], rfl, fun j r hr hrp => Nat.pos_of_ne_zero fun hj => by
      simp [hj, hms] at hr
      simp [← hr, hap, hcp] at hrp⟩
  rw [hms, List.mem_cons, List.mem_cons, List.mem_cons, List.mem_singleton] at hr
  rcases hr with rfl | rfl | rfl | rfl
  · exact .inr hprecedes
  · exact absurd (hbid.symm.trans hid) (by decide)
  · exact .inl rfl
  · exact absurd (heid.symm.trans hid) (by decide)

/-- When it starts with another module, its own module of that id is the last one, but the second
file stands behind it. -/
def duplicatedLate : Options :=
  duplicated "define('w', [], () => 0); define('y', ['z'], (z) => z); define('x', [], () => 1)"
    "define('z', [], () => 2); define('x', [], () => 3)"

/-- The global name then stands in front of a file that declares the id, and it publishes another
definition than the one that the loader keeps. -/
theorem global_published_early : ∃ s d front back, duplicatedLate.settings "/" = .ok s ∧
    run (Listing.view ∅) s .empty = .ok d ∧ s.globalModules.get? "x" = some "X" ∧
    parts s d.modules = front ++ .global "x" "X" :: back ∧ (∃ p ∈ back, p.Declares "x") ∧
    kept "x" front ≠ kept "x" (parts s d.modules) := by
  have hfound : (inlineRun duplicatedLate).map (fun r =>
      (r.1.globalModules.get? "x", (parts r.1 r.2.modules)[1]?,
        ((parts r.1 r.2.modules).drop 2).any fun p => p.defines.any (·.id == "x"),
        kept "x" ((parts r.1 r.2.modules).take 1) == kept "x" (parts r.1 r.2.modules))) =
      some (some "X", some (.global "x" "X"), true, false) := by
    decide +kernel
  obtain ⟨⟨s, d⟩, hrun, he⟩ := Option.map_eq_some_iff.mp hfound
  obtain ⟨hs, hd⟩ := of_inlineRun hrun
  simp only [Prod.mk.injEq] at he
  obtain ⟨hg, hname, hlater, hkept⟩ := he
  obtain ⟨hlength, hname⟩ := List.getElem?_eq_some_iff.mp hname
  refine ⟨s, d, (parts s d.modules).take 1, (parts s d.modules).drop 2, hs, hd, hg, ?_, ?_, ?_⟩
  · rw [← hname, ← List.drop_eq_getElem_cons hlength, List.take_append_drop]
  · simpa [Part.Declares] using hlater
  · simpa using hkept

end DefineBundle.Bundle
