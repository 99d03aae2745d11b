import DefineBundle.Proofs.Bundle.DevelopmentCode
import DefineBundle.Proofs.Bundle.DevelopmentLoader
import DefineBundle.Proofs.Fingerprint.Marker

/-!
# Development bundles as scripts

Ids, global names, paths and sources may be any text, and a development bundle is a script all the
same. The name of the bundle's own file is the one text that is put between quotes as it is. So the
bundle is a script that looks for this name exactly when the name has no quote, no backslash, no
line end, and no place for code.
-/
namespace DefineBundle.Text

theorem trimEnd_append_cons {c : Char} (hc : isBlank c = false) (cs tail : List Char) :
    trimEnd (cs ++ c :: tail) = cs ++ c :: trimEnd tail := by
  rw [trimEnd, List.reverse_append, List.reverse_cons, List.append_assoc, List.singleton_append,
    List.dropWhile_append]
  split
  · rename_i hall
    rw [trimEnd, List.isEmpty_iff.mp hall, List.dropWhile_cons_of_neg (by simp [hc])]
    simp
  · simp [trimEnd]

theorem length_trimEnd_le (cs : List Char) : (trimEnd cs).length ≤ cs.length := by
  rw [trimEnd, List.length_reverse]
  exact Nat.le_trans (List.dropWhile_suffix _).length_le (Nat.le_of_eq List.length_reverse)

end DefineBundle.Text

namespace DefineBundle.Bundle

open DefineBundle.Script DefineBundle.Script.Tree DefineBundle.Text

def fileName (path : String) : List Char :=
  (Path.fileName? path).getD []

/-- Whether a character stands for itself between single quotes. -/
def isPlainInQuotes (c : Char) : Bool :=
  !(c == '\'' || c == '\\' || c == '\n' || c == '\r')

/-- Whether a text stands for itself between the quotes of a loader. -/
def isQuotable (cs : List Char) : Bool :=
  cs.all isPlainInQuotes && !occurs Loader.codePlace cs

theorem forall_mem_slash_cons {name : List Char} (h : name.all isPlainInQuotes = true) :
    ∀ c ∈ '/' :: name, (c == '\'' || c == '\\' || c == '\n' || c == '\r') = false := by
  rw [List.forall_mem_cons]
  exact ⟨by decide, fun c hc => by simpa [isPlainInQuotes] using List.all_eq_true.mp h c hc⟩

/-- The value of the literal that a development bundle has where its loader has a place for the
bundle's own name, if a literal with a text as its value stands there. -/
def nameLiteral? (bundle : String) : Option String :=
  (after? (frontOf Loader.developmentText) bundle.toList).bind fun cs =>
    match Token.next? cs with
    | some (.string value false _, _) => some value
    | _ => none

theorem nameLiteral?_eq_some {cs rest : List Char} {value raw : String}
    (h : Token.next? cs = some (.string value false raw, rest)) :
    nameLiteral? (String.ofList (frontOf Loader.developmentText ++ cs)) = some value := by
  rw [nameLiteral?, String.toList_ofList, after?_eq_some_iff.mpr rfl, Option.bind_some, h]

theorem exists_of_nameLiteral? {cs : List Char} {value : String}
    (h : nameLiteral? (String.ofList (frontOf Loader.developmentText ++ cs)) = some value) :
    ∃ raw rest, Token.next? cs = some (.string value false raw, rest) := by
  rw [nameLiteral?, String.toList_ofList, after?_eq_some_iff.mpr rfl, Option.bind_some] at h
  split at h
  · rename_i raw rest hnext
    exact ⟨raw, rest, Option.some.inj h ▸ hnext⟩
  · cases h

namespace LoaderCut

variable (cut : LoaderCut)

def behind : List Char :=
  '\'' :: (cut.middle ++ codeGap ++ Loader.codePlace ++ loaderEnding)

theorem developmentLoader_eq (path : String) : developmentLoader path =
    frontOf Loader.developmentText ++ '\'' :: '/' :: (fileName path ++ cut.behind) := by
  have hword : Loader.fileNamePlace ≠ [] := by decide
  have hquote : '\'' ∉ Loader.fileNamePlace := by decide
  have hslash : '/' ∉ Loader.fileNamePlace := by decide
  have hplace : replaceFrom Loader.fileNamePlace (fileName path) 0 Loader.fileNamePlace =
      fileName path := by
    simp [Loader.fileNamePlace, replaceFrom, after?]
  have hfront : occurs Loader.fileNamePlace (frontOf Loader.developmentText) = false := by
    rw [cut.front_eq]
    exact cut.name_free.1
  rw [developmentLoader, replaceAll, if_neg (by decide)]
  conv_lhs => rw [cut.text_eq]
  rw [replaceFrom_append_cons hword hquote _ _ (Nat.zero_le _), replaceFrom_eq_self hfront,
    ← List.nil_append ('/' :: _), replaceFrom_append_cons hword hslash _ _ (Nat.zero_le _),
    replaceFrom_append_cons hword hquote _ _ (Nat.zero_le _), replaceFrom_eq_self cut.name_free.2]
  change _ ++ '\'' :: ([] ++ '/' :: (replaceFrom Loader.fileNamePlace (fileName path) 0 _ ++ _)) = _
  rw [hplace]
  rfl

include cut in
theorem codePlace_free_front :
    occurs Loader.codePlace (frontOf Loader.developmentText) = false := by
  rw [cut.front_eq]
  exact cut.code_free.1

/-- A place for code in the name comes before that of the loader. -/
theorem splitFirst?_of_name {path : String} {before after : List Char}
    (h : splitFirst? Loader.codePlace (fileName path) = some (before, after)) :
    splitFirst? Loader.codePlace (developmentLoader path) =
      some (frontOf Loader.developmentText ++ '\'' :: '/' :: before, after ++ cut.behind) := by
  have hword : Loader.codePlace ≠ [] := by decide
  rw [cut.developmentLoader_eq, splitFirst?_append_cons hword (by decide) cut.codePlace_free_front,
    ← List.nil_append ('/' :: _), splitFirst?_append_cons hword (by decide) (by decide), behind,
    splitFirst?_append_cons_of_some hword (by decide) h]
  rfl

/-- Otherwise the place is the one behind the statements of the loader. -/
theorem splitFirst?_of_not_name {path : String}
    (h : occurs Loader.codePlace (fileName path) = false) :
    splitFirst? Loader.codePlace (developmentLoader path) =
      some (frontOf Loader.developmentText ++ '\'' :: '/' :: (fileName path ++
        '\'' :: (cut.middle ++ codeGap)), loaderEnding) := by
  have hword : Loader.codePlace ≠ [] := by decide
  have hmiddle : occurs Loader.codePlace (cut.middle ++ ['\n', '\n']) = false := by
    refine Bool.eq_false_iff.mpr fun hoccurs => ?_
    obtain ⟨before, rest, he⟩ := occurs_iff.mp hoccurs
    refine Bool.eq_false_iff.mp cut.code_free.2 (occurs_iff.mpr ⟨before, rest ++ ['\t'], ?_⟩)
    have hgap : codeGap = ['\n', '\n'] ++ ['\t'] := by decide
    rw [hgap, ← List.append_assoc, he]
    simp
  have hplace : splitFirst? Loader.codePlace (Loader.codePlace ++ loaderEnding) =
      some ([], loaderEnding) := by
    decide
  have hbehind : cut.behind = '\'' :: (cut.middle ++ ['\n', '\n'] ++
      '\t' :: (Loader.codePlace ++ loaderEnding)) := by
    simp [behind, codeGap]
  rw [cut.developmentLoader_eq, splitFirst?_append_cons hword (by decide) cut.codePlace_free_front,
    ← List.nil_append ('/' :: _), splitFirst?_append_cons hword (by decide) (by decide), hbehind,
    splitFirst?_append_cons hword (by decide) h,
    splitFirst?_append_cons hword (by decide) hmiddle, hplace]
  simp [codeGap]

end LoaderCut

/-- The line that carries the fingerprint, if the settings ask for one. -/
def hashLine (s : Settings) (fingerprint : String) : List Char :=
  if s.hash then (Fingerprint.write fingerprint).toList else []

theorem development_eq {s : Settings} {ms : List ModuleRecord} {fingerprint path : String}
    {front back : List Char}
    (h : splitFirst? Loader.codePlace (developmentLoader path) = some (front, back))
    (hback : back.getLast? = some '\n') :
    development s ms fingerprint path = .ok (String.ofList
      (trimEnd front ++ codeSection s ms path ++ back ++ hashLine s fingerprint)) := by
  have hinsert : Loader.insertCode? (developmentLoader path) (codeSection s ms path) =
      some (trimEnd front ++ codeSection s ms path ++ back) := by
    rw [Loader.insertCode?, h]
    rfl
  have hclosed : closed (trimEnd front ++ codeSection s ms path ++ back) =
      trimEnd front ++ codeSection s ms path ++ back := by
    rw [closed, List.getLast?_append, hback]
    rfl
  have hdevelopment : development s ms fingerprint path =
      .ok (if s.hash then String.ofList (closed (trimEnd front ++ codeSection s ms path ++ back)) ++
          Fingerprint.write fingerprint
        else String.ofList (trimEnd front ++ codeSection s ms path ++ back)) :=
    bind_eq_ok (placed_eq_ok_iff.mpr hinsert) rfl
  rw [hdevelopment, hclosed, hashLine]
  split
  · rw [@String.ofList_append _ (String.toList _), String.ofList_toList]
  · rw [List.append_nil]

/-- Behind the last statement there is space, and perhaps one line of comment. -/
theorem exists_skip_hashLine (s : Settings) {fingerprint : String}
    (h : ∀ c ∈ fingerprint.toList, isLineEnd c = false) : ∃ g,
      Trivia.skip .between ⟨false, false, false⟩ ('\n' :: hashLine s fingerprint) =
        some (g, []) := by
  unfold hashLine
  split
  · have hline : ∀ c ∈ Fingerprint.marker.drop 2 ++ fingerprint.toList, isLineEnd c = false := by
      rw [List.forall_mem_append]
      exact ⟨by simp [Fingerprint.marker, isLineEnd], h⟩
    have hcomment := skip_lineComment hline ⟨true, false, false⟩ []
    refine ⟨⟨true, false, false⟩, ?_⟩
    rw [Fingerprint.write, String.toList_append, String.toList_append, String.toList_ofList]
    exact hcomment
  · exact ⟨_, rfl⟩

/-- The statement that a development bundle consists of. -/
def developmentStatement (setup functions code : List Tree) (name : String) : Tree :=
  node .expression [node (.call false false) [
    node .parens [node (.function false false false) [missing, node .parameters [ofName "exports"],
      node (.body ["use strict"]) (setup ++ searchLoop name :: (functions ++ code))]],
    leaf .thisRef]]

namespace LoaderCut

variable (cut : LoaderCut)

/-- The text of the statement that a development bundle consists of. -/
def statementText (name code : List Char) : List Char :=
  cut.opening ++ '\'' :: ('/' :: name ++ ['\'']) ++ cut.middle ++ code ++
    "\n\x7d)(this);".toList

theorem writesStatements_statementText {name code : List Char} {ts : List Tree}
    (hname : name.all isPlainInQuotes = true) (hcode : WritesStatements code ts) :
    WritesStatements (cut.statementText name code)
      [developmentStatement cut.setup cut.functions ts (String.ofList ('/' :: name))] := by
  obtain ⟨is, his, hts, hwrites⟩ := hcode
  have hloop := spell?_searchLoop (String.ofList ('/' :: name))
  have hbody := spell?_of_spells (@Spells.body ["use strict"] _ _
    (spellAll?_append cut.setup_spelled
      (spellAll?_cons.mpr ⟨hloop, spellAll?_append cut.functions_spelled his⟩))
    (by simp [cut.setup_statements, cut.functions_statements, hts, searchLoop, isStatement]))
  have hparameters := spell?_of_spells (.parameters
    (spellAll?_singleton (spell?_ofName (n := "exports") (by decide))) rfl)
  have hfunction := spell?_of_spells (.function (spell?_of_spells .absent) hparameters hbody rfl)
  have hcall := spell?_of_spells (.call (spell?_of_spells (.parens hfunction rfl))
    (spellAll?_singleton (spell?_of_spells .thisRef)) rfl rfl)
  refine .singleton (spell?_of_spells (.expression hcall rfl rfl)) rfl ?_
  have hliteral := writes_string (.inl rfl)
    (Literal.content?_of_all_plain (forall_mem_slash_cons hname))
  have hclose : Writes "\n\x7d)(this);".toList [.mark .braceClose, .mark .parenClose,
      .mark .parenOpen, .word "this", .mark .parenClose, .mark .semicolon] :=
    writes_of_readsAs (by decide) (by decide)
  have hall := (((cut.opening_writes.append hliteral).append cut.middle_writes).append
    hwrites).append hclose
  simpa [statementText, openingItems, commas] using hall

theorem development_of_not_name {s : Settings} {ms : List ModuleRecord} {fingerprint path : String}
    (h : occurs Loader.codePlace (fileName path) = false) :
    development s ms fingerprint path = .ok (String.ofList (loaderHeader ++
      (cut.statementText (fileName path) (codeSection s ms path) ++
        '\n' :: hashLine s fingerprint))) := by
  have hlast : (loaderHeader ++ cut.opening ++ '\'' :: '/' :: (fileName path ++
      '\'' :: cut.middle)).getLast? = some ';' := by
    simp [List.getLast?_append, List.getLast?_cons, cut.middle_last]
  have htrim : trimEnd (frontOf Loader.developmentText ++ '\'' :: '/' :: (fileName path ++
      '\'' :: (cut.middle ++ codeGap))) = loaderHeader ++ cut.opening ++ '\'' :: '/' ::
        (fileName path ++ '\'' :: cut.middle) := by
    have hgap : ∀ b ∈ codeGap, isBlank b = true := List.all_eq_true.mp (by decide)
    rw [cut.front_eq, ← trimEnd_append hlast (by decide) hgap]
    simp
  have hending : loaderEnding = "\n\x7d)(this);".toList ++ ['\n'] := by decide
  rw [development_eq (cut.splitFirst?_of_not_name h) (by decide), htrim, hending, statementText]
  simp

include cut in
/-- The bundle when the name holds a place for code: the code stands inside the literal. -/
theorem development_of_name (s : Settings) (ms : List ModuleRecord) (fingerprint : String)
    {path : String} {before after : List Char}
    (h : splitFirst? Loader.codePlace (fileName path) = some (before, after)) : ∃ rest,
    development s ms fingerprint path = .ok (String.ofList (frontOf Loader.developmentText ++
      '\'' :: ('/' :: trimEnd before ++ ['\n'] ++ '\n' :: rest))) := by
  have hback : (after ++ cut.behind).getLast? = some '\n' := by
    have hending : loaderEnding.getLast? = some '\n' := by decide
    simp [behind, List.getLast?_append, List.getLast?_cons, hending]
  refine ⟨'\t' :: (trim (developmentCode s ms path) ++ (after ++ cut.behind) ++
    hashLine s fingerprint), ?_⟩
  rw [development_eq (cut.splitFirst?_of_name h) hback, trimEnd_append_cons (by decide),
    ← List.nil_append ('/' :: before), trimEnd_append_cons (by decide), codeSection]
  simp

end LoaderCut

/-- The literal for the name is that of the name exactly when the name stands for itself there. -/
theorem nameLiteral?_development_iff {s : Settings} {ms : List ModuleRecord}
    {fingerprint path text : String} (h : development s ms fingerprint path = .ok text) :
    nameLiteral? text = some (String.ofList ('/' :: fileName path)) ↔
      isQuotable (fileName path) = true := by
  obtain ⟨cut⟩ := nonempty_loaderCut
  cases hname : splitFirst? Loader.codePlace (fileName path) with
  | some parts =>
      obtain ⟨before, after⟩ := parts
      obtain ⟨rest, hdevelopment⟩ := cut.development_of_name s ms fingerprint hname
      obtain rfl := Except.ok.inj (h.symm.trans hdevelopment)
      refine ⟨fun h => ?_, fun h => by simp [isQuotable, occurs, hname] at h⟩
      obtain ⟨raw, behind, hnext⟩ := exists_of_nameLiteral? h
      have hlength := Literal.length_le_of_string? hnext (by decide)
      have htrim := length_trimEnd_le before
      have hsplit := congrArg List.length (eq_of_splitFirst? hname)
      have hplace : Loader.codePlace.length = 8 := rfl
      simp only [List.length_append, List.length_cons, hplace] at hlength hsplit
      omega
  | none =>
      have hfree : occurs Loader.codePlace (fileName path) = false := by
        rw [occurs, hname]
        rfl
      obtain rfl := Except.ok.inj (h.symm.trans (cut.development_of_not_name hfree))
      obtain ⟨middle, hmiddle⟩ := cut.middle_eq
      obtain ⟨rest, htext⟩ : ∃ rest, loaderHeader ++
          (cut.statementText (fileName path) (codeSection s ms path) ++
            '\n' :: hashLine s fingerprint) = frontOf Loader.developmentText ++
            '\'' :: ('/' :: fileName path ++ '\'' :: ") != -1) \x7b".toList ++ '\n' :: rest) := by
        rw [cut.front_eq, LoaderCut.statementText, hmiddle]
        simp
      rw [htext, isQuotable, hfree, Bool.not_false, Bool.and_true]
      constructor
      · intro h
        obtain ⟨raw, behind, hnext⟩ := exists_of_nameLiteral? h
        have hlast : ") != -1) \x7b".toList.getLast? = some '\x7b' := by decide
        have hall := Literal.all_plain_of_string? hnext (by decide) (by decide) hlast (by decide)
        rw [List.forall_mem_cons] at hall
        exact List.all_eq_true.mpr fun c hc => by simpa [isPlainInQuotes] using hall.2 c hc
      · intro hplain
        have hliteral := Literal.string?_content (.inl rfl)
          (Literal.content?_of_all_plain (forall_mem_slash_cons hplain))
          (") != -1) \x7b".toList ++ '\n' :: rest)
        refine nameLiteral?_eq_some (Eq.trans ?_ hliteral)
        simp [Token.next?]

/-- With such a name the bundle is a script: the statements of the loader around those for the ids,
the global names and the files. -/
theorem exists_parse?_development {s : Settings} {ms : List ModuleRecord}
    {fingerprint path text : String} (h : development s ms fingerprint path = .ok text)
    (hfingerprint : ∀ c ∈ fingerprint.toList, isLineEnd c = false)
    (hname : isQuotable (fileName path) = true) :
    ∃ setup functions, parse? text = some (node (.program none []) [developmentStatement setup
        functions (codeStatements s ms path) (String.ofList ('/' :: fileName path))]) ∧
      (node (.program none []) [developmentStatement setup functions (codeStatements s ms path)
        (String.ofList ('/' :: fileName path))]).isClassic = true := by
  obtain ⟨cut⟩ := nonempty_loaderCut
  simp only [isQuotable, Bool.and_eq_true, Bool.not_eq_true'] at hname
  obtain rfl := Except.ok.inj (h.symm.trans (cut.development_of_not_name hname.2))
  obtain ⟨g, htail⟩ := exists_skip_hashLine s hfingerprint
  have hbody := cut.writesStatements_statementText hname.1 (writesStatements_codeSection s ms path)
  have hstatement := hbody
  obtain ⟨is, his, -⟩ := hstatement
  refine ⟨_, _, parse?_of_writesStatements skip_loaderHeader hashbang_loaderHeader hbody htail, ?_⟩
  rw [Tree.isClassic, areClassic_of_spellAll? his]
  rfl

/-- A development bundle is a script that looks for the name of its own file exactly when that name
stands for itself between quotes and has no place for code. -/
theorem development_isScript_iff (s : Settings) (ms : List ModuleRecord) {fingerprint : String}
    (hfingerprint : ∀ c ∈ fingerprint.toList, isLineEnd c = false) (path : String) :
    ∃ text, development s ms fingerprint path = .ok text ∧
      (((∃ t, parse? text = some t ∧ t.isClassic = true) ∧
          nameLiteral? text = some (String.ofList ('/' :: fileName path))) ↔
        isQuotable (fileName path) = true) := by
  obtain ⟨text, htext⟩ := exists_development s ms fingerprint path
  refine ⟨text, htext, fun h => (nameLiteral?_development_iff htext).mp h.2, fun h => ⟨?_, ?_⟩⟩
  · obtain ⟨setup, functions, hparse, hclassic⟩ := exists_parse?_development htext hfingerprint h
    exact ⟨_, hparse, hclassic⟩
  · exact (nameLiteral?_development_iff htext).mpr h

theorem isLineEnd_of_mem_fingerprint {ms : List ModuleRecord} {s : Settings} {c : Char}
    (h : c ∈ (Fingerprint.of ms s).toList) : isLineEnd c = false := by
  have hdigit := Fingerprint.isHexDigit_of_mem_hex h
  simp only [isLineEnd, Bool.or_eq_false_iff, beq_eq_false_iff_ne]
  refine ⟨⟨⟨?_, ?_⟩, ?_⟩, ?_⟩ <;> exact fun he => absurd (he ▸ hdigit) (by decide)

theorem development_isScript_iff_mixed : ∃ s d text, mixedOptions.settings "/" = .ok s ∧
    Discovery.run (Listing.view mixedFiles) s .empty = .ok d ∧ d.modules ≠ [] ∧
    (∀ c ∈ (Fingerprint.of d.modules s).toList, isLineEnd c = false) ∧
    development s d.modules (Fingerprint.of d.modules s) "/it's/dev \"1\".js" = .ok text ∧
    (∃ t, parse? text = some t ∧ t.isClassic = true) ∧
    nameLiteral? text = some "/dev \"1\".js" := by
  have hfound : (Discovery.diskRun mixedFiles mixedOptions).map (fun r => r.2.modules.length) =
      some 2 := by
    decide +kernel
  obtain ⟨⟨s, d⟩, hrun, hlength⟩ := Option.map_eq_some_iff.mp hfound
  obtain ⟨hs, hd⟩ := Discovery.of_diskRun hrun
  have hfingerprint : ∀ c ∈ (Fingerprint.of d.modules s).toList, isLineEnd c = false :=
    fun c => isLineEnd_of_mem_fingerprint
  obtain ⟨text, htext, hiff⟩ := development_isScript_iff s d.modules hfingerprint
    "/it's/dev \"1\".js"
  obtain ⟨hscript, hliteral⟩ := hiff.mpr (by decide +kernel)
  have hname : String.ofList ('/' :: fileName "/it's/dev \"1\".js") = "/dev \"1\".js" := by
    decide +kernel
  rw [hname] at hliteral
  refine ⟨s, d, text, hs, hd, ?_, hfingerprint, htext, hscript, hliteral⟩
  rintro hnil
  rw [hnil] at hlength
  cases hlength

/-- A quote in the name ends the literal early. -/
theorem development_quoted_name : ∃ s d text, mixedOptions.settings "/" = .ok s ∧
    Discovery.run (Listing.view mixedFiles) s .empty = .ok d ∧
    development s d.modules (Fingerprint.of d.modules s) "/p/it's.js" = .ok text ∧
    fileName "/p/it's.js" = "it's.js".toList ∧ nameLiteral? text ≠ some "/it's.js" := by
  have hfound : (Discovery.diskRun mixedFiles mixedOptions).isSome = true := by
    decide +kernel
  obtain ⟨⟨s, d⟩, hrun⟩ := Option.isSome_iff_exists.mp hfound
  obtain ⟨hs, hd⟩ := Discovery.of_diskRun hrun
  obtain ⟨text, htext⟩ := exists_development s d.modules (Fingerprint.of d.modules s) "/p/it's.js"
  have hname : fileName "/p/it's.js" = "it's.js".toList := by
    decide +kernel
  refine ⟨s, d, text, hs, hd, htext, hname, fun hliteral => ?_⟩
  have hquotable := nameLiteral?_development_iff htext
  rw [hname] at hquotable
  exact absurd (hquotable.mp (by simpa using hliteral)) (by decide +kernel)

end DefineBundle.Bundle
