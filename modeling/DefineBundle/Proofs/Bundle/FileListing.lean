import DefineBundle.Bundle.Development
import DefineBundle.Proofs.Bundle.FileMembers
import DefineBundle.Proofs.Bundle.Making
import DefineBundle.Proofs.Fingerprint.Determined
import DefineBundle.Proofs.Path.Relative
import DefineBundle.Proofs.Text.Quoting

/-!
# The files that a development bundle lists

A development bundle has a line for each file. Whatever the paths and the sources are, each line can
be told from all the others, and what it says leads back to its file: the text of an inline line is
the source, and the path of a load line, followed from the directory of the bundle, is the path of
the file.
-/
namespace DefineBundle

namespace Text

theorem trim_append {gap core : List Char} {first last : Char}
    (hgap : ∀ b ∈ gap, isBlank b = true) (hfirst : core.head? = some first)
    (hlast : core.getLast? = some last) (hblanks : (isBlank first || isBlank last) = false) :
    trim (gap ++ core) = core := by
  rw [Bool.or_eq_false_iff] at hblanks
  obtain ⟨cs, rfl⟩ := List.head?_eq_some_iff.mp hfirst
  have hstart : trimStart (gap ++ first :: cs) = first :: cs := by
    rw [trimStart, List.dropWhile_append_of_pos hgap,
      List.dropWhile_cons_of_neg (by simp [hblanks.1])]
  obtain ⟨front, hfront⟩ := List.getLast?_eq_some_iff.mp hlast
  rw [trim, hstart, hfront, trimEnd_concat, if_neg (by simp [hblanks.2])]

def between? (start stop cs : List Char) : Option (List Char) :=
  (after? start cs).bind fun rest => (after? stop.reverse rest.reverse).map List.reverse

theorem between?_eq_some_iff {start stop cs inner : List Char} :
    between? start stop cs = some inner ↔ cs = start ++ inner ++ stop := by
  simp only [between?, Option.bind_eq_some_iff, Option.map_eq_some_iff, after?_eq_some_iff]
  constructor
  · rintro ⟨rest, rfl, _, hrest, rfl⟩
    rw [← List.reverse_reverse rest, hrest]
    simp
  · rintro rfl
    exact ⟨inner ++ stop, by simp, inner.reverse, by simp, by simp⟩

theorem between?_eq_none {start stop cs : List Char} (h : after? start cs = none) :
    between? start stop cs = none := by
  rw [between?, h, Option.bind_none]

end Text

namespace Bundle

open DefineBundle.Discovery (run diskRun of_diskRun)
open DefineBundle.Text
open DefineBundle.Text.SingleQuoted (encode decode)

/-- The code as it stands in the bundle at a path. -/
def codeSection (s : Settings) (ms : List ModuleRecord) (path : String) : List Char :=
  ['\n', '\n', '\t'] ++ trim (developmentCode s ms path)

/-- What a line of the bundle says of a file. -/
inductive Entry where
  /-- The file is at the end of a way from the directory of the bundle. -/
  | load (way : String)
  /-- The text of the file stands in the bundle. -/
  | inline (source : String)
  deriving DecidableEq, Repr

/-- What a line says, if it is of the form `load('...');` or `inline('...');`. -/
def entryIn? (line : List Char) : Option Entry :=
  match between? "\tload('".toList "');".toList line with
  | some written => some (.load (String.ofList (decode written)))
  | none => (between? "\tinline('".toList "');".toList line).map fun written =>
      .inline (String.ofList (decode written))

/-- What the lines of a text say, in their order. -/
def listing (code : List Char) : List Entry :=
  (splitOn '\n' code).filterMap entryIn?

/-- An entry leads from a directory to the file of a module. -/
def Entry.LeadsTo (directory : String) (m : ModuleRecord) : Entry → Prop
  | .load way => m.isVirtual = false ∧ Path.normalize (Path.join directory way) = m.path
  | .inline source => m.isVirtual = true ∧ source = m.source

theorem listing_append_newline (cs rest : List Char) :
    listing (cs ++ '\n' :: rest) = listing cs ++ listing rest := by
  rw [listing, splitOn_append_cons, List.filterMap_append]
  rfl

theorem listing_line {line : List Char} (h : '\n' ∉ line) :
    listing line = (entryIn? line).toList := by
  have hsplit := splitOn_joinWith (List.cons_ne_nil line []) (by simpa using h)
  rw [joinWith] at hsplit
  rw [listing, hsplit, List.filterMap_cons]
  cases entryIn? line <;> rfl

theorem listing_other {line : List Char} (hno : '\n' ∉ line)
    (hload : after? "\tload('".toList line = none)
    (hinline : after? "\tinline('".toList line = none) (rest : List Char) :
    listing (line ++ '\n' :: rest) = listing rest := by
  rw [listing_append_newline, listing_line hno, entryIn?, between?_eq_none hload,
    between?_eq_none hinline]
  rfl

def entryOf (directory : String) (f : BundleFile) : Entry :=
  if f.isVirtual then .inline f.source else .load (Path.relative f.path directory)

theorem listing_loadLine (directory : String) (f : BundleFile) (rest : List Char) :
    listing (loadLine directory f ++ rest) = entryOf directory f :: listing rest := by
  have hline : ∃ line, loadLine directory f = line ++ ['\n'] ∧ '\n' ∉ line ∧
      entryIn? line = some (entryOf directory f) := by
    unfold loadLine entryOf
    split
    · refine ⟨"\tinline('".toList ++ encode f.source.toList ++ "');".toList, ?_, ?_, ?_⟩
      · simp
      · simpa using SingleQuoted.newline_notMem_encode f.source.toList
      · rw [entryIn?, between?_eq_none (by simp [after?]), between?_eq_some_iff.mpr rfl]
        simp [SingleQuoted.decode_encode]
    · refine ⟨"\tload('".toList ++ encode (Path.relative f.path directory).toList ++ "');".toList,
        ?_, ?_, ?_⟩
      · simp
      · simpa using SingleQuoted.newline_notMem_encode (Path.relative f.path directory).toList
      · rw [entryIn?, between?_eq_some_iff.mpr rfl]
        simp [SingleQuoted.decode_encode]
  obtain ⟨line, he, hno, hentry⟩ := hline
  rw [he, List.append_assoc, List.singleton_append, listing_append_newline, listing_line hno,
    hentry]
  rfl

theorem listing_flatMap_loadLine (directory : String) (fs : List BundleFile) (rest : List Char) :
    listing (fs.flatMap (loadLine directory) ++ rest) =
      fs.map (entryOf directory) ++ listing rest := by
  induction fs with
  | nil => rfl
  | cons f fs ih =>
      rw [List.flatMap_cons, List.append_assoc, listing_loadLine, ih]
      rfl

/-- Whatever blanks the code begins with, a line break and an indentation take their place. -/
theorem codeSection_eq {s : Settings} {ms : List ModuleRecord} {path : String} (gap : List Char)
    {core : List Char} {first : Char} (hcode : developmentCode s ms path = gap ++ first :: core)
    (hgap : ∀ b ∈ gap, isBlank b = true) (hfirst : isBlank first = false) :
    codeSection s ms path = ['\n', '\n', '\t'] ++ first :: core := by
  have hend : "\n\twriteScripts();".toList.getLast? = some ';' := by decide
  have hlast : (developmentCode s ms path).getLast? = some ';' := by
    rw [developmentCode, List.getLast?_append, hend, Option.some_or]
  rw [hcode, List.getLast?_append, List.getLast?_cons, Option.some_or] at hlast
  have hsemicolon : isBlank ';' = false := by decide
  have htrim := trim_append hgap rfl (List.getLast?_cons.trans hlast)
    (by rw [hfirst, hsemicolon, Bool.or_false])
  rw [codeSection, hcode, htrim]

theorem exists_codeSection (s : Settings) (ms : List ModuleRecord) (path : String) :
    ∃ gap, codeSection s ms path = gap ++ developmentCode s ms path ∧
      gap = if exposedIds ms ≠ [] then ['\n', '\n', '\t']
        else if s.globalModules.entries = [] ∧ files (members s.globalModules ms) = [] then ['\n']
        else ['\n', '\n'] := by
  cases hids : exposedIds ms with
  | cons id ids =>
      have hexpose : ∀ rest, ∃ core, exposeCall (id :: ids) ++ rest = 'e' :: core := by
        unfold exposeCall
        simp
      obtain ⟨core, hcore⟩ : ∃ core, developmentCode s ms path = 'e' :: core := by
        simp only [developmentCode, hids, List.isEmpty_cons, Bool.false_eq_true, if_false,
          List.append_assoc]
        exact hexpose _
      refine ⟨['\n', '\n', '\t'], ?_, by simp⟩
      rw [codeSection_eq [] hcore (by simp) (by decide), hcore]
  | nil =>
      have hcode : developmentCode s ms path = globalsLine s.globalModules ++
          ((files (members s.globalModules ms)).flatMap (loadLine (Path.parent path)) ++
            "\n\twriteScripts();".toList) := by
        simp [developmentCode, hids]
      have hindented : (∃ core first, isBlank first = false ∧
          developmentCode s ms path = '\t' :: first :: core) →
          codeSection s ms path = ['\n', '\n'] ++ developmentCode s ms path := by
        rintro ⟨core, first, hfirst, hcore⟩
        rw [codeSection_eq ['\t'] hcore (by simp [isBlank]) hfirst, hcore]
        rfl
      cases hglobals : s.globalModules.entries with
      | cons e es =>
          obtain ⟨core, hcore⟩ : ∃ core, developmentCode s ms path = '\t' :: 'g' :: core := by
            simp [hcode, globalsLine, hglobals]
          exact ⟨_, hindented ⟨core, 'g', by decide, hcore⟩, by simp⟩
      | nil =>
          cases hfiles : files (members s.globalModules ms) with
          | cons f fs =>
              obtain ⟨core, first, hfirst, hcore⟩ : ∃ core first, isBlank first = false ∧
                  developmentCode s ms path = '\t' :: first :: core := by
                rw [hcode, globalsLine, hglobals, hfiles, List.flatMap_cons, loadLine]
                cases f.isVirtual
                · exact ⟨_, 'l', by decide, by simp; rfl⟩
                · exact ⟨_, 'i', by decide, by simp; rfl⟩
              exact ⟨_, hindented ⟨core, first, hfirst, hcore⟩, by simp⟩
          | nil =>
              obtain ⟨core, hcore⟩ :
                  ∃ core, developmentCode s ms path = ['\n', '\t'] ++ 'w' :: core := by
                simp [hcode, globalsLine, hglobals, hfiles]
              refine ⟨['\n'], ?_, by simp⟩
              rw [codeSection_eq _ hcore (by simp [isBlank]) (by decide), hcore]
              simp

theorem listing_cons_newline (rest : List Char) : listing ('\n' :: rest) = listing rest := by
  have hempty : listing [] = [] := by decide
  rw [← List.nil_append ('\n' :: rest), listing_append_newline, hempty, List.nil_append]

theorem listing_exposeCall (ids : List String) (rest : List Char) :
    listing ('\t' :: exposeCall ids ++ '\n' :: rest) = listing rest := by
  have hno : '\n' ∉ literals ids := by
    intro h
    rcases mem_joinWith h with hc | ⟨cs, hcs, hc⟩
    · exact absurd hc (by decide)
    · obtain ⟨id, -, rfl⟩ := List.mem_map.mp hcs
      exact absurd (Json.Text.le_toNat_of_mem_string hc) (by decide)
  have hline : '\n' ∉ '\t' :: exposeCall ids := by
    unfold exposeCall
    simpa using hno
  exact listing_other hline rfl rfl rest

theorem listing_globalsLine (globals : Assoc String) (rest : List Char) :
    listing (globalsLine globals ++ rest) = listing rest := by
  unfold globalsLine
  split
  · rfl
  · have hno : '\n' ∉ (Json.ofAssoc .string globals).chars := fun h =>
      absurd (Json.le_toNat_of_mem_ofAssoc h) (by decide)
    have hline : '\n' ∉ "\tglobals = ".toList ++ (Json.ofAssoc .string globals).chars ++ [';'] := by
      simpa using hno
    have hlines : "\tglobals = ".toList ++ (Json.ofAssoc .string globals).chars ++
        ";\n\n".toList ++ rest = "\tglobals = ".toList ++ (Json.ofAssoc .string globals).chars ++
          [';'] ++ '\n' :: '\n' :: rest := by
      simp
    rw [hlines, listing_other hline rfl rfl, listing_cons_newline]

theorem listing_codeSection (s : Settings) (ms : List ModuleRecord) (path : String) :
    listing (codeSection s ms path) =
      (files (members s.globalModules ms)).map (entryOf (Path.parent path)) := by
  have hlast : listing "\n\twriteScripts();".toList = [] := by decide
  have hfiles : listing (globalsLine s.globalModules ++
      ((files (members s.globalModules ms)).flatMap (loadLine (Path.parent path)) ++
        "\n\twriteScripts();".toList)) =
      (files (members s.globalModules ms)).map (entryOf (Path.parent path)) := by
    rw [listing_globalsLine, listing_flatMap_loadLine, hlast, List.append_nil]
  obtain ⟨gap, hsection, rfl⟩ := exists_codeSection s ms path
  rw [hsection, developmentCode, ← hfiles]
  cases hids : exposedIds ms with
  | cons id ids =>
      have hlines : ∀ rest, ['\n', '\n', '\t'] ++ (exposeCall (id :: ids) ++ ['\n', '\n'] ++ rest) =
          '\n' :: '\n' :: ('\t' :: exposeCall (id :: ids) ++ '\n' :: '\n' :: rest) := by
        simp
      rw [if_pos (List.cons_ne_nil id ids), List.isEmpty_cons, if_neg Bool.false_ne_true,
        List.append_assoc, List.append_assoc, hlines, listing_cons_newline, listing_cons_newline,
        listing_exposeCall, listing_cons_newline]
  | nil =>
      simp only [ne_eq, not_true_eq_false, if_false, List.isEmpty_nil, if_true, List.nil_append,
        List.append_assoc]
      split <;> simp only [List.cons_append, List.nil_append, listing_cons_newline]

/-- A development bundle is the loader with the code section at the place for it, and perhaps the
line of a fingerprint. -/
theorem exists_development_codeSection (s : Settings) (ms : List ModuleRecord)
    (fingerprint path : String) : ∃ front back line,
      splitFirst? Loader.codePlace (developmentLoader path) = some (front, back) ∧
      development s ms fingerprint path =
        .ok (String.ofList (trimEnd front ++ codeSection s ms path ++ back ++ line)) := by
  obtain ⟨cs, hcs⟩ := developmentLoader_eq path
  obtain ⟨bundle, hbundle, -⟩ := exists_insertCode? hcs (codeSection s ms path)
  have hplaced := hbundle
  rw [Loader.insertCode?, Option.map_eq_some_iff] at hplaced
  obtain ⟨⟨front, back⟩, hsplit, rfl⟩ := hplaced
  have hclosed : ∃ ending, closed (trimEnd front ++ codeSection s ms path ++ back) =
      trimEnd front ++ codeSection s ms path ++ back ++ ending := by
    unfold closed
    split
    · exact ⟨[], by simp⟩
    · exact ⟨['\n'], rfl⟩
  obtain ⟨ending, hending⟩ := hclosed
  have hdevelopment : development s ms fingerprint path =
      .ok (if s.hash then String.ofList (closed (trimEnd front ++ codeSection s ms path ++ back)) ++
          Fingerprint.write fingerprint
        else String.ofList (trimEnd front ++ codeSection s ms path ++ back)) :=
    bind_eq_ok (placed_eq_ok_iff.mpr hbundle) rfl
  rw [hdevelopment]
  split
  · refine ⟨front, back, ending ++ (Fingerprint.write fingerprint).toList, hsplit, ?_⟩
    rw [hending, ← List.append_assoc, @String.ofList_append _ (String.toList _),
      String.ofList_toList]
  · exact ⟨front, back, [], hsplit, by rw [List.append_nil]⟩

/-- Of a discovery, all modules of one path agree on the text and the kind of their file. -/
theorem same_file_of_same_path {o : Options} {current : String} {view : FileView} {s : Settings}
    {d : Discovery} (hs : o.settings current = .ok s) (hrun : run view s .empty = .ok d)
    {m m' : ModuleRecord} (hm : m ∈ d.modules) (hm' : m' ∈ d.modules) (hp : m.path = m'.path) :
    m.source = m'.source ∧ m.isVirtual = m'.isVirtual := by
  obtain ⟨es, hx⟩ := Discovery.exists_isExact hs hrun
  obtain ⟨t, ds, -, -, hrecords⟩ := hx.modules m.path (hx.path_mem m hm)
  have hshape : ∀ r ∈ d.modules, r.path = m.path →
      r.source = s.tokens.substitute t.text ∧ r.isVirtual = t.isVirtual := by
    intro r hr hrp
    have hmem : r ∈ d.modules.filter (·.path = m.path) := List.mem_filter.mpr ⟨hr, by simp [hrp]⟩
    rw [hrecords] at hmem
    obtain ⟨_, -, rfl⟩ := List.mem_map.mp hmem
    exact ⟨rfl, rfl⟩
  obtain ⟨hsource, hkind⟩ := hshape m hm rfl
  obtain ⟨hsource', hkind'⟩ := hshape m' hm' hp.symm
  exact ⟨hsource.trans hsource'.symm, hkind.trans hkind'.symm⟩

/-- The lines of a development bundle lead to the files of the modules that were found: one line to
each file, in the order in which the files come first. -/
theorem listing_leadsTo {o : Options} {current : String} {view : FileView} {s : Settings}
    {d : Discovery} (hs : o.settings current = .ok s) (hrun : run view s .empty = .ok d)
    (habsolute : ∀ m ∈ d.modules, Path.isAbsolute m.path = true) {path : String}
    (hpath : Path.isAbsolute path = true) (hnormal : Path.IsNormal path) (hroot : path ≠ "/")
    (fingerprint : String) :
    (∃ front back line, splitFirst? Loader.codePlace (developmentLoader path) = some (front, back) ∧
      development s d.modules fingerprint path =
        .ok (String.ofList (trimEnd front ++ codeSection s d.modules path ++ back ++ line))) ∧
    List.Forall₂ (fun entry file => ∀ m ∈ d.modules, m.path = file →
        entry.LeadsTo (Path.parent path) m)
      (listing (codeSection s d.modules path)) (d.modules.map ModuleRecord.path).eraseDups := by
  refine ⟨exists_development_codeSection s d.modules fingerprint path, ?_⟩
  have hdirectory : Disk.Spells (Path.parent path) := by
    obtain ⟨l, hl, rfl⟩ := Disk.spells_of_isNormal hnormal hpath
    rcases l.eq_nil_or_concat with rfl | ⟨k, name, rfl⟩
    · exact absurd rfl hroot
    · rw [List.concat_eq_append, List.forall_mem_append] at hl
      rw [List.concat_eq_append, Path.parent, Disk.parent?_pathOf hl.1 (hl.2 name (by simp))]
      exact ⟨k, hl.1, rfl⟩
  have hfiles : (d.modules.map ModuleRecord.path).eraseDups =
      (files (members s.globalModules d.modules)).map BundleFile.path :=
    (fileOrder_eq s.globalModules d.modules).symm
  rw [listing_codeSection, hfiles, List.forall₂_map_left_iff, List.forall₂_map_right_iff,
    List.forall₂_same]
  intro f hf m hm hp
  obtain ⟨r, hr, hrp, hrs, hrv⟩ := exists_record_of_mem_files hf
  obtain ⟨hsource, hkind⟩ := same_file_of_same_path hs hrun hr hm (hrp.symm.trans hp.symm)
  have hfile : Disk.Spells m.path := by
    obtain ⟨es, hx⟩ := Discovery.exists_isExact hs hrun
    exact Disk.spells_of_isNormal (Discovery.isNormal_of_mem_visited hs hrun (hx.path_mem m hm))
      (habsolute m hm)
  unfold entryOf
  split
  · rename_i hv
    exact ⟨by rw [← hkind, ← hrv, hv], hrs.trans hsource⟩
  · rename_i hv
    rw [← hp]
    rw [Bool.not_eq_true] at hv
    exact ⟨by rw [← hkind, ← hrv, hv],
      Path.normalize_join_relative hfile hdirectory⟩

/-- A module of the settings that asks for one on disk, with quotes and line breaks in its text. -/
def mixedOptions : Options :=
  Discovery.inlineOptions ["/src/a.js"] [("/src/a.js", "define('a', ['b'],\n\t() => '\\'');")]

def mixedFiles : Listing :=
  (∅ : Listing).insert "/src/b.js" ⟨some "define('b', [], () => 0)", 1⟩

theorem listing_leadsTo_mixed : ∃ s d, mixedOptions.settings "/" = .ok s ∧
    run (Listing.view mixedFiles) s .empty = .ok d ∧
    List.Forall₂ (fun entry file => ∀ m ∈ d.modules, m.path = file → entry.LeadsTo "/it's" m)
      (listing (codeSection s d.modules "/it's/dev.js")) ["/src/b.js", "/src/a.js"] := by
  have hfound : (diskRun mixedFiles mixedOptions).map (fun r => r.2.modules.map ModuleRecord.path) =
      some ["/src/b.js", "/src/a.js"] := by
    decide +kernel
  obtain ⟨⟨s, d⟩, hrun, hpaths⟩ := Option.map_eq_some_iff.mp hfound
  obtain ⟨hs, hd⟩ := of_diskRun hrun
  have habsolute : ∀ m ∈ d.modules, Path.isAbsolute m.path = true := by
    have hall : ∀ p ∈ d.modules.map ModuleRecord.path, Path.isAbsolute p = true := by
      rw [hpaths]
      decide +kernel
    exact fun m hm => hall _ (List.mem_map_of_mem hm)
  have hnormal : Path.IsNormal "/it's/dev.js" := ⟨"/it's/dev.js", by decide +kernel⟩
  have hlisting := (listing_leadsTo hs hd habsolute (by decide +kernel) hnormal (by decide) "").2
  have hdirectory : Path.parent "/it's/dev.js" = "/it's" := by decide +kernel
  rw [hpaths, hdirectory] at hlisting
  exact ⟨s, d, hs, hd, hlisting⟩

end Bundle

end DefineBundle
