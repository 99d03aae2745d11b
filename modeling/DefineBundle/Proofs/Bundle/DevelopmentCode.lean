import DefineBundle.Proofs.Bundle.FileListing
import DefineBundle.Proofs.Script.WrittenScripts

/-!
# The code of a development bundle as statements

The code of a development bundle is a list of plain statements: ids, global names, paths and sources
may be any text, for each stands in a literal that reads as this text.
-/
namespace DefineBundle.Bundle

open DefineBundle.Script DefineBundle.Script.Tree DefineBundle.Text

def fileStatement (directory : String) (f : BundleFile) : Tree :=
  if f.isVirtual then callStatement "inline" [ofText f.source]
  else callStatement "load" [ofText (Path.relative f.path directory)]

theorem exists_loadLine (directory : String) (f : BundleFile) : ∃ w,
    loadLine directory f = w ++ ['\n'] ∧ WritesStatements w [fileStatement directory f] := by
  have hclose : Writes [')', ';'] [.mark .parenClose, .mark .semicolon] :=
    writes_of_readsAs (by decide) (by decide)
  unfold loadLine fileStatement
  split
  · have hopen : Writes "\tinline(".toList [.word "inline", .mark .parenOpen] :=
      writes_of_readsAs (by decide) (by decide)
    refine ⟨_, ?_, writesStatements_call (by decide)
      (spellAll?_singleton (spell?_ofText f.source)) rfl
      ((hopen.append (writes_encode f.source)).append hclose)⟩
    simp
  · have hopen : Writes "\tload(".toList [.word "load", .mark .parenOpen] :=
      writes_of_readsAs (by decide) (by decide)
    refine ⟨_, ?_, writesStatements_call (by decide)
      (spellAll?_singleton (spell?_ofText (Path.relative f.path directory))) rfl
      ((hopen.append (writes_encode (Path.relative f.path directory))).append hclose)⟩
    simp

theorem writesStatements_files (directory : String) (fs : List BundleFile) {w : List Char}
    {ts : List Tree} (hw : WritesStatements w ts) :
    WritesStatements (fs.flatMap (loadLine directory) ++ w)
      (fs.map (fileStatement directory) ++ ts) := by
  induction fs with
  | nil => exact hw
  | cons f fs ih =>
      obtain ⟨line, hline, hstatement⟩ := exists_loadLine directory f
      have hall := hstatement.append (ih.pad ['\n'] rfl)
      simpa [hline] using hall

def exposeStatement (ids : List String) : Tree :=
  callStatement "expose" [node .array (ids.map ofText)]

theorem writesStatements_exposeCall {ids : List String} (hids : ids ≠ []) :
    WritesStatements (exposeCall ids) [exposeStatement ids] := by
  have hopen : Writes "expose([".toList [.word "expose", .mark .parenOpen, .mark .bracketOpen] :=
    writes_of_readsAs (by decide) (by decide)
  have hclose : Writes "]);".toList [.mark .bracketClose, .mark .parenClose, .mark .semicolon] :=
    writes_of_readsAs (by decide) (by decide)
  have hliterals : List.Forall₂ Writes (ids.map Bundle.literal)
      (ids.map fun id => [.string id false]) :=
    forall₂_map_map fun id _ => writes_jsonText id
  have hids := writes_commas hliterals (by simpa using hids)
  have harray := spell?_of_spells
    (.array (spellAll?_map spell?_ofText ids) (by simp [ofText, isExpression, bond?]))
  refine writesStatements_call (by decide) (spellAll?_singleton harray) rfl ?_
  unfold exposeCall
  simpa only [literals, commas, List.cons_append, List.append_assoc, List.nil_append] using
    (hopen.append hids).append hclose

/-- The property that gives an id its global name. -/
def memberTree (e : String × String) : Tree :=
  node (.property .plain) [ofText e.1, ofText e.2]

/-- The statement that sets the table of global names. -/
def globalsStatement (globals : Assoc String) : Tree :=
  node .expression [node (.assign none) [ofName "globals",
    node .object (globals.entries.map memberTree)]]

theorem spell?_memberTree (e : String × String) : spell? (memberTree e) =
    some [.string e.1 false, .mark .colon, .string e.2 false] :=
  spell?_of_spells (.property (spell?_ofText e.2) rfl)

theorem memberChars_append_membersChars (m : String × Json) (ms : List (String × Json)) :
    Json.memberChars m ++ Json.membersChars ms =
      joinWith [','] ((m :: ms).map Json.memberChars) ++ ['\x7d'] := by
  induction ms generalizing m with
  | nil => rfl
  | cons m' ms ih =>
      rw [Json.membersChars, ih]
      simp [joinWith]

theorem writes_member (e : String × String) : Writes (Json.memberChars (e.1, .string e.2))
    [.string e.1 false, .mark .colon, .string e.2 false] := by
  have hcolon : Writes [':'] [.mark .colon] := writes_of_readsAs (by decide) (by decide)
  have hvalue := hcolon.append (writes_jsonText e.2)
  exact (writes_jsonText e.1).append hvalue

theorem exists_globalsLine {globals : Assoc String} (h : globals.entries ≠ []) : ∃ w,
    globalsLine globals = w ++ ['\n', '\n'] ∧ WritesStatements w [globalsStatement globals] := by
  have hopen : Writes "\tglobals = \x7b".toList
      [.word "globals", .token (.assign none), .mark .braceOpen] :=
    writes_of_readsAs (by decide) (by decide)
  have hclose : Writes "\x7d;".toList [.mark .braceClose, .mark .semicolon] :=
    writes_of_readsAs (by decide) (by decide)
  have hname : isPlainName "globals" = true := by decide
  have hobject := spell?_of_spells
    (.object (spellAll?_map spell?_memberTree globals.entries) (by simp [memberTree, isProperty]))
  have hassign :=
    spell?_of_spells (@Spells.assign none _ _ _ _ (spell?_ofName hname) hobject rfl rfl)
  have hmembers := writes_commas (forall₂_map_map fun e (_ : e ∈ globals.entries) =>
    writes_member e) (by simpa using h)
  refine ⟨_, ?_, .singleton (spell?_of_spells (.expression hassign rfl hname)) rfl
    (w := "\tglobals = \x7b".toList ++ joinWith [','] (globals.entries.map fun e =>
      Json.memberChars (e.1, .string e.2)) ++ "\x7d;".toList) ?_⟩
  · unfold globalsLine Json.ofAssoc
    obtain ⟨e, es, he⟩ := List.exists_cons_of_ne_nil h
    rw [he, List.isEmpty_cons, if_neg Bool.false_ne_true, List.map_cons, Json.chars,
      memberChars_append_membersChars]
    simp [Function.comp_def]
  · simpa using (hopen.append hmembers).append hclose

def codeStatements (s : Settings) (ms : List ModuleRecord) (path : String) : List Tree :=
  (if exposedIds ms = [] then [] else [exposeStatement (exposedIds ms)]) ++
    (if s.globalModules.entries = [] then [] else [globalsStatement s.globalModules]) ++
      ((files (members s.globalModules ms)).map (fileStatement (Path.parent path)) ++
        [callStatement "writeScripts" []])

theorem writesStatements_codeSection (s : Settings) (ms : List ModuleRecord) (path : String) :
    WritesStatements (codeSection s ms path) (codeStatements s ms path) := by
  have hlast : WritesStatements "\n\twriteScripts();".toList [callStatement "writeScripts" []] :=
    writesStatements_call (by decide) rfl rfl (writes_of_readsAs (by decide) (by decide))
  obtain ⟨gap, hsection, hgap⟩ := exists_codeSection s ms path
  have hspace : gap.all isPad = true := by
    rw [hgap]
    split
    · rfl
    · split <;> rfl
  rw [hsection]
  refine WritesStatements.pad ?_ _ hspace
  have hfiles :=
    writesStatements_files (Path.parent path) (files (members s.globalModules ms)) hlast
  have hglobals : WritesStatements (globalsLine s.globalModules ++
      ((files (members s.globalModules ms)).flatMap (loadLine (Path.parent path)) ++
        "\n\twriteScripts();".toList))
      ((if s.globalModules.entries = [] then [] else [globalsStatement s.globalModules]) ++
      ((files (members s.globalModules ms)).map (fileStatement (Path.parent path)) ++
        [callStatement "writeScripts" []])) := by
    split
    · rename_i hnone
      rw [globalsLine, hnone]
      exact hfiles
    · rename_i hsome
      obtain ⟨w, hw, hstatement⟩ := exists_globalsLine hsome
      rw [hw, List.append_assoc]
      exact hstatement.append (hfiles.pad ['\n', '\n'] rfl)
  unfold developmentCode codeStatements
  cases hids : exposedIds ms with
  | nil => simpa using hglobals
  | cons id ids =>
      have hexpose := writesStatements_exposeCall (List.cons_ne_nil id ids)
      simpa using hexpose.append (hglobals.pad ['\n', '\n'] rfl)

end DefineBundle.Bundle
