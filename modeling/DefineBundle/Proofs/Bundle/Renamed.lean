import DefineBundle.Proofs.Bundle.FileMembers
import DefineBundle.Proofs.Bundle.LoaderScript
import DefineBundle.Proofs.Bundle.ShortNames
import DefineBundle.Proofs.Discovery.Reachability

/-!
# Ids renamed in a bundle

Short names for ids change a minified bundle only as far as can be undone: without the prologue, and
with the id that it declares put back for each name, the script is the one with its ids as they
were written. This is so as long as the modules do not use the names themselves and no id is
written with a lone surrogate, whose mark gets lost. Of the modules that were discovered no id is
left unnamed.
-/
namespace DefineBundle.Bundle

open DefineBundle.Script DefineBundle.Script.Tree

variable {names : ShortNames} {ms : List ModuleRecord}

/-- The id and the name that a declarator of the prologue holds. -/
def binding? : Tree → Option (String × String)
  | node .declarator [node (.identifier n) [], node (.string id false) []] => some (id, n)
  | _ => none

/-- Whether a statement is the declaration of exactly these names. -/
def isPrologue (names : ShortNames) : Tree → Bool
  | node (.declaration .var) ds => !names.isEmpty && ds.map binding? == names.map some
  | _ => false

theorem binding?_eq_some_iff {t : Tree} {e : String × String} : binding? t = some e ↔
    t = node .declarator [leaf (.identifier e.2), leaf (.string e.1 false)] := by
  constructor
  · intro h
    unfold binding? at h
    split at h
    · cases h
      rfl
    · cases h
  · rintro rfl
    rfl

theorem map_binding?_eq_iff {ds : List Tree} : ds.map binding? = names.map some ↔
    ds = names.map fun e =>
      node .declarator [leaf (.identifier e.2), leaf (.string e.1 false)] := by
  induction ds generalizing names with
  | nil => cases names <;> simp
  | cons d ds ih =>
      cases names with
      | nil => simp
      | cons e names =>
          rw [List.map_cons, List.map_cons, List.map_cons, List.cons.injEq, List.cons.injEq,
            binding?_eq_some_iff, ih]

theorem isPrologue_iff {t : Tree} : isPrologue names t = true ↔ t ∈ prologue names := by
  have hform : isPrologue names t = true ↔
      ∃ ds, t = node (.declaration .var) ds ∧ names ≠ [] ∧ ds.map binding? = names.map some := by
    unfold isPrologue
    split
    · simp
    · rename_i hno
      simp only [Bool.false_eq_true, false_iff, not_exists, not_and]
      rintro ds rfl
      exact absurd rfl (hno ds)
  rw [hform]
  unfold prologue
  cases names with
  | nil => simp
  | cons e names =>
      simp only [map_binding?_eq_iff, ne_eq, List.cons_ne_nil, not_false_eq_true, true_and,
        exists_eq_right, List.isEmpty_cons, Bool.false_eq_true, ↓reduceIte, List.mem_singleton]

/-- The names are undone by dropping the prologue and putting back the ids it declares. -/
theorem undoes (h : names.IsProper) : Undoes names.get? names.idOf? (isPrologue names) := by
  refine ⟨h.idOf?_of_get?, fun hdrops => ?_⟩
  rw [isPrologue_iff] at hdrops
  cases names with
  | nil => cases hdrops
  | cons e names =>
      obtain rfl := List.mem_singleton.mp hdrops
      exact ⟨e.2, rfl, by simp [ShortNames.idOf?]⟩

theorem restoredAmong_prologue (names : ShortNames) :
    restoredAmong (isPrologue names) names.idOf? (prologue names) = [] := by
  have hnone : (prologue names).filter (!isPrologue names ·) = [] := by
    rw [List.filter_eq_nil_iff]
    intro t ht
    simp [isPrologue_iff.mpr ht]
  rw [restoredAmong_eq, hnone, List.map_nil]

theorem defineCallsAmong_prologue (names : ShortNames) :
    defineCallsAmong (prologue names) = [] := by
  unfold prologue
  split
  · rfl
  · have hdeclarator : ∀ e : String × String, defineCalls
        (node .declarator [leaf (.identifier e.2), leaf (.string e.1 false)]) = [] := fun e => rfl
    rw [defineCallsAmong, defineCalls, defineCallsAmong, List.append_nil]
    simp only [callArguments?, defineCallsAmong_eq, List.flatMap_map, hdeclarator,
      List.flatMap_eq_nil_iff, implies_true]

theorem restored_idExpression (h : names.IsProper) (id : String) :
    restored (isPrologue names) names.idOf? (idExpression names id) = leaf (.string id false) := by
  unfold idExpression
  split
  · rename_i n hn
    simp [restored, Form.identifier?, h.idOf?_of_get? hn]
  · rfl

theorem isPrologue_idExpression (id : String) :
    isPrologue names (idExpression names id) = false := by
  unfold idExpression
  split <;> rfl

theorem restored_identifier (h : names.IsProper) {n : String} (hn : n.toList.head? ≠ some '_') :
    restored (isPrologue names) names.idOf? (leaf (.identifier n)) = leaf (.identifier n) := by
  rw [restored_node (by simp [Form.identifier?, h.idOf?_eq_none hn])]
  rfl

theorem restored_aliasTree (h : names.IsProper) (e : String × String) :
    restored (isPrologue names) names.idOf? (aliasTree names e) = aliasTree [] e := by
  have hindex : ∀ (n : String) (key : Tree) {key' : Tree}, n.toList.head? ≠ some '_' →
      isPrologue names key = false → restored (isPrologue names) names.idOf? key = key' →
      restored (isPrologue names) names.idOf? (node (.index false) [leaf (.identifier n), key]) =
        node (.index false) [leaf (.identifier n), key'] := by
    intro n key key' hn hkept hkey
    rw [restored_node rfl, restoredAmong_cons rfl, restored_identifier h hn,
      restoredAmong_cons hkept, hkey, restoredAmong]
  have hexports := hindex "exports" (leaf (.string e.2 false)) (by decide) rfl rfl
  have hmodules := hindex "modules" (idExpression names e.1) (by decide)
    (isPrologue_idExpression e.1) (restored_idExpression h e.1)
  rw [aliasTree, restored_node rfl, restoredAmong_cons rfl, restored_node rfl,
    restoredAmong_cons rfl, hexports, restoredAmong_cons rfl, hmodules, restoredAmong]
  rfl

theorem restored_exposeTree (h : names.IsProper) (ids : List String) :
    restored (isPrologue names) names.idOf? (exposeTree names ids) = exposeTree [] ids := by
  have hexpose := restored_identifier h (n := "expose") (by decide)
  have hids : restoredAmong (isPrologue names) names.idOf? (ids.map (idExpression names)) =
      ids.map (idExpression []) := by
    induction ids with
    | nil => rfl
    | cons id ids ih =>
        rw [List.map_cons, restoredAmong_cons (isPrologue_idExpression id),
          restored_idExpression h, ih]
        rfl
  rw [exposeTree, restored_node rfl, restoredAmong_cons rfl, restored_node rfl,
    restoredAmong_cons rfl, hexpose, restoredAmong_cons rfl, restored_node rfl, hids, restoredAmong]
  rfl

/-- The epilogue is restored to the one without names. -/
theorem restoredAmong_epilogue (h : names.IsProper) (s : Settings) (ms : List ModuleRecord) :
    restoredAmong (isPrologue names) names.idOf? (epilogue names s ms) = epilogue [] s ms := by
  have haliases : ∀ es : List (String × String),
      restoredAmong (isPrologue names) names.idOf? (es.map (aliasTree names)) =
        es.map (aliasTree []) := by
    intro es
    induction es with
    | nil => rfl
    | cons e es ih =>
        rw [List.map_cons, restoredAmong_cons rfl, restored_aliasTree h, ih, List.map_cons]
  rw [epilogue, epilogue, restoredAmong_append, haliases]
  split
  · rw [restoredAmong]
  · rw [restoredAmong_cons rfl, restored_exposeTree h, restoredAmong]

theorem defineCalls_idExpression (id : String) : defineCalls (idExpression names id) = [] := by
  unfold idExpression
  split <;> rfl

theorem defineCallsAmong_epilogue (s : Settings) (ms : List ModuleRecord) :
    defineCallsAmong (epilogue names s ms) = [] := by
  have halias : ∀ e, defineCalls (aliasTree names e) = [] := fun e => by
    simp [aliasTree, defineCalls, defineCallsAmong, callArguments?, defineCalls_idExpression]
  have hexpose : ∀ ids, defineCalls (exposeTree names ids) = [] := fun ids => by
    simp [exposeTree, defineCalls, defineCallsAmong, callArguments?, defineCallsAmong_eq,
      defineCalls_idExpression]
  rw [epilogue, defineCallsAmong_append, List.append_eq_nil_iff]
  refine ⟨by simp only [defineCallsAmong_eq, List.flatMap_map, halias, List.flatMap_eq_nil_iff,
    implies_true], ?_⟩
  split
  · rfl
  · simp [defineCallsAmong, hexpose]

/-- The statements of all files as they are written. -/
def written (globals : Assoc String) (ms : List ModuleRecord) : List Tree :=
  (files (members globals ms)).flatMap fun f => (statements? f.source).getD []

theorem exists_of_mem_written {globals : Assoc String} {t : Tree} (h : t ∈ written globals ms) :
    ∃ m ∈ ms, ∃ ts ∈ statements? m.source, t ∈ ts := by
  obtain ⟨f, hf, ht⟩ := List.mem_flatMap.mp h
  obtain ⟨m, hm, -, he, -⟩ := exists_record_of_mem_files hf
  rw [he] at ht
  cases hs : statements? m.source with
  | none =>
      rw [hs] at ht
      cases ht
  | some ts =>
      rw [hs] at ht
      exact ⟨m, hm, ts, hs, ht⟩

theorem exists_of_mem_identifiersAmong {globals : Assoc String} {n : String}
    (h : n ∈ identifiersAmong (written globals ms)) :
    ∃ m ∈ ms, ∃ ts ∈ statements? m.source, n ∈ identifiersAmong ts := by
  rw [identifiersAmong_eq] at h
  obtain ⟨t, ht, hn⟩ := List.mem_flatMap.mp h
  obtain ⟨m, hm, ts, hts, hmem⟩ := exists_of_mem_written ht
  exact ⟨m, hm, ts, hts, identifiers_subset_among hmem hn⟩

theorem exists_of_mem_defineCallsAmong {globals : Assoc String} {arguments : List Tree}
    (h : arguments ∈ defineCallsAmong (written globals ms)) :
    ∃ m ∈ ms, ∃ ts ∈ statements? m.source, arguments ∈ defineCallsAmong ts := by
  rw [defineCallsAmong_eq] at h
  obtain ⟨t, ht, harguments⟩ := List.mem_flatMap.mp h
  obtain ⟨m, hm, ts, hts, hmem⟩ := exists_of_mem_written ht
  refine ⟨m, hm, ts, hts, ?_⟩
  rw [defineCallsAmong_eq]
  exact List.mem_flatMap.mpr ⟨t, hmem, harguments⟩

theorem mapM_fileStatements {fs : List BundleFile}
    (h : ∀ f ∈ fs, ∃ ts, statements? f.source = some ts) :
    fs.mapM (fileStatements names) = .ok (fs.map fun f =>
      renameDefinesAmong names.get? ((statements? f.source).getD [])) := by
  refine mapM_eq_ok_map fun f hf => ?_
  obtain ⟨ts, hts⟩ := h f hf
  rw [fileStatements, hts]
  rfl

/-- The script without the prologue, and with the id that it declares put back for each name. -/
def withIds (names : ShortNames) (t : Tree) : Tree :=
  restored (isPrologue names) names.idOf? t

/-- A bundle whose modules all parse has a script: that of the loader, with the statements of the
files between those for the names. -/
theorem exists_frame_script : ∃ frame : Frame, isHost (frame.fill []) = true ∧
    ∀ (s : Settings) (ms : List ModuleRecord),
      (∀ m ∈ ms, ∃ ts, statements? m.source = some ts) →
      script s ms = .ok (frame.fill (prologue (shortNames s ms) ++
        renameDefinesAmong (shortNames s ms).get? (written s.globalModules ms) ++
          epilogue (shortNames s ms) s ms)) := by
  obtain ⟨loader, frame, hloader, hframe, hhost⟩ := exists_frame_loaderScript
  refine ⟨frame, hhost, fun s ms hparse => ?_⟩
  have hfiles : ∀ f ∈ files (members s.globalModules ms), ∃ ts, statements? f.source = some ts := by
    intro f hf
    obtain ⟨m, hm, -, he, -⟩ := exists_record_of_mem_files hf
    rw [he]
    exact hparse m hm
  have hwritten : ((files (members s.globalModules ms)).map fun f =>
      renameDefinesAmong (shortNames s ms).get? ((statements? f.source).getD [])).flatten =
        renameDefinesAmong (shortNames s ms).get? (written s.globalModules ms) := by
    simp [written, renameDefinesAmong_eq, List.flatMap_def, Function.comp_def]
  rw [script, hloader, scriptInside]
  dsimp only
  rw [mapM_fileStatements hfiles, ← hwritten]
  exact congrArg (placed "inline loader") (hframe _)

theorem exists_scripts (s : Settings) (hparse : ∀ m ∈ ms, ∃ ts, statements? m.source = some ts) :
    ∃ frame : Frame, isHost (frame.fill []) = true ∧
      script { s with compressModuleIds := false } ms =
        .ok (frame.fill (written s.globalModules ms ++ epilogue [] s ms)) ∧
      script { s with compressModuleIds := true } ms =
        .ok (frame.fill (prologue (ShortNames.ofModules ms) ++
          renameDefinesAmong (ShortNames.ofModules ms).get? (written s.globalModules ms) ++
            epilogue (ShortNames.ofModules ms) s ms)) := by
  obtain ⟨frame, hhost, hscript⟩ := exists_frame_script
  have hunnamed : ∀ ts, renameDefinesAmong (ShortNames.get? []) ts = ts :=
    renameDefinesAmong_of_forall_none fun _ => rfl
  have hplain := hscript { s with compressModuleIds := false } ms hparse
  have hnone : shortNames { s with compressModuleIds := false } ms = [] := rfl
  rw [hnone, hunnamed] at hplain
  exact ⟨frame, hhost, hplain, hscript { s with compressModuleIds := true } ms hparse⟩

section
variable {frame : Frame} (hhost : isHost (frame.fill []) = true)
include hhost

/-- Only the statements of the files are left to be restored in a script. -/
theorem withIds_fill (h : names.IsProper) (s : Settings) (ms : List ModuleRecord) (ts : List Tree) :
    withIds names (frame.fill (prologue names ++ ts ++ epilogue names s ms)) =
      frame.fill (restoredAmong (isPrologue names) names.idOf? ts ++ epilogue [] s ms) := by
  have hfree : Free names.idOf? (frame.fill []) := by
    intro n hn
    simp only [isHost, Bool.and_eq_true, List.all_eq_true, bne_iff_ne] at hhost
    exact h.idOf?_eq_none (hhost.1.1.2 n hn)
  rw [withIds, Frame.restored_fill (undoes h) hfree, restoredAmong_append, restoredAmong_append,
    restoredAmong_prologue, restoredAmong_epilogue h, List.nil_append]

/-- The calls of `define` in a script are those in the statements of the files. -/
theorem defineCalls_fill_script (s : Settings) (ms : List ModuleRecord) (ts : List Tree) :
    defineCalls (frame.fill (prologue names ++ ts ++ epilogue names s ms)) =
      defineCallsAmong ts := by
  simp only [isHost, Bool.and_eq_true, List.isEmpty_iff] at hhost
  rw [Frame.defineCalls_fill hhost.1.2, defineCallsAmong_append, defineCallsAmong_append,
    defineCallsAmong_prologue, defineCallsAmong_epilogue, List.nil_append, List.append_nil]

end

/-- No name is an identifier in the source of a module. -/
def Unused (names : ShortNames) (ms : List ModuleRecord) : Prop :=
  ∀ m ∈ ms, ∀ ts ∈ statements? m.source, ∀ e ∈ names, e.2 ∉ identifiersAmong ts

/-- No id or dependency that has a name is written with a lone surrogate. -/
def KeepsMarks (names : ShortNames) (ms : List ModuleRecord) : Prop :=
  ∀ m ∈ ms, ∀ ts ∈ statements? m.source, ∀ arguments ∈ defineCallsAmong ts,
    ∀ t ∈ defineLiterals arguments, ∀ e ∈ t.form.literal?, names.get? e.1 ≠ none → e.2 = false

/-- Restored, the statements of the files are as they were written. -/
theorem literalsByAmong_restored_written {mark : Bool → Bool} {globals : Assoc String}
    (h : names.IsProper) (hunused : Unused names ms)
    (hmark : (∀ l, mark l = mark false) ∨ KeepsMarks names ms) :
    literalsByAmong mark (restoredAmong (isPrologue names) names.idOf?
      (renameDefinesAmong names.get? (written globals ms))) =
        literalsByAmong mark (written globals ms) := by
  refine literalsByAmong_restored_renameDefines (undoes h) ?_ ?_
  · intro n hn
    obtain ⟨m, hm, ts, hts, hmem⟩ := exists_of_mem_identifiersAmong hn
    refine ShortNames.idOf?_eq_none_of_notMem fun e he hname => ?_
    exact hunused m hm ts hts e he (hname ▸ hmem)
  · intro arguments harguments t ht e he hnamed
    rcases hmark with hmark | hmark
    · exact hmark e.2
    · obtain ⟨m, hm, ts, hts, hmem⟩ := exists_of_mem_defineCallsAmong harguments
      rw [hmark m hm ts hts arguments hmem t ht e he hnamed]

/-- Every call of `define` in a discovered module was recorded, so all ids in it have names. -/
theorem exists_declared {o : Options} {current : String} {view : FileView} {s : Settings}
    {d : Discovery} (hs : o.settings current = .ok s)
    (hrun : Discovery.run view s .empty = .ok d) {m : ModuleRecord} (hm : m ∈ d.modules)
    {ts : List Tree} (hts : statements? m.source = some ts) {arguments : List Tree}
    (harguments : arguments ∈ defineCallsAmong ts) :
    ∃ declared, Declaration.ofArguments? arguments = .ok declared ∧
      ∀ id ∈ declared.id :: declared.deps, id ∈ ShortNames.mentioned d.modules := by
  obtain ⟨es, hx⟩ := Discovery.exists_isExact hs hrun
  obtain ⟨t, ds, ⟨-, hds⟩, -, hrecords⟩ := hx.modules m.path (hx.path_mem m hm)
  have hrecord : m ∈ d.modules.filter (·.path = m.path) := List.mem_filter.mpr ⟨hm, by simp⟩
  have hrecorded : ∀ r ∈ d.modules.filter (·.path = m.path), r ∈ d.modules :=
    fun r hr => List.mem_of_mem_filter hr
  rw [hrecords] at hrecord hrecorded
  obtain ⟨_, -, hsame⟩ := List.mem_map.mp hrecord
  have hsource : s.tokens.substitute t.text = m.source := congrArg ModuleRecord.source hsame
  obtain ⟨tree, htree, hcalls⟩ := exists_of_statements? hts
  rw [← hsource] at htree
  have hdeclared : tree.defineCalls.mapM Declaration.ofArguments? = .ok ds := by
    unfold declarationsOf declarations at hds
    rw [htree] at hds
    dsimp only at hds
    split at hds
    · cases hds
    · rename_i found hfound
      cases hds
      exact hfound
  rw [← hcalls] at harguments
  obtain ⟨declared, hmem, he⟩ := exists_of_forall₂ (mapM_eq_ok_iff.mp hdeclared) harguments
  refine ⟨declared, he, fun id hid => ?_⟩
  exact List.mem_flatMap.mpr ⟨_, List.forall_mem_map.mp hrecorded declared hmem, hid⟩

/-- Whether ids are renamed or not, a bundle whose modules all parse has a script. When the modules
do not use the names, the renamed script restored is the other one, except that an id written with a
lone surrogate has lost its mark; without such ids it is the other one entirely. And of discovered
modules, every call of `define` has a name in place of its id and of each dependency. -/
theorem script_restored (s : Settings) (ms : List ModuleRecord)
    (hparse : ∀ m ∈ ms, ∃ ts, statements? m.source = some ts) :
    ∃ plain renamed, script { s with compressModuleIds := false } ms = .ok plain ∧
      script { s with compressModuleIds := true } ms = .ok renamed ∧
      (Unused (ShortNames.ofModules ms) ms →
        literalsBy (fun _ => false) (withIds (ShortNames.ofModules ms) renamed) =
            literalsBy (fun _ => false) plain ∧
          (KeepsMarks (ShortNames.ofModules ms) ms →
            literalsBy id (withIds (ShortNames.ofModules ms) renamed) = literalsBy id plain)) ∧
      ∀ {o : Options} {current : String} {view : FileView} {d : Discovery},
        o.settings current = .ok s → Discovery.run view s .empty = .ok d → d.modules = ms →
        ∀ arguments ∈ renamed.defineCalls, ∀ t ∈ defineLiterals arguments,
          ∃ e ∈ ShortNames.ofModules ms, t = leaf (.identifier e.2) := by
  obtain ⟨frame, hhost, hplain, hrenamed⟩ := exists_scripts s hparse
  have hproper := ShortNames.isProper_ofModules ms
  refine ⟨_, _, hplain, hrenamed, fun hunused => ?_, fun hs hrun hd arguments harguments t ht => ?_⟩
  · rw [withIds_fill hhost hproper]
    refine ⟨Frame.literalsBy_fill ?_, fun hkeeps => Frame.literalsBy_fill ?_⟩
    · rw [literalsByAmong_append, literalsByAmong_append,
        literalsByAmong_restored_written hproper hunused (.inl fun _ => rfl)]
    · rw [literalsByAmong_append, literalsByAmong_append,
        literalsByAmong_restored_written hproper hunused (.inr hkeeps)]
  · rw [defineCalls_fill_script hhost, defineCallsAmong_renameDefinesAmong] at harguments
    obtain ⟨original, horiginal, rfl⟩ := List.mem_map.mp harguments
    obtain ⟨m, hm, ts, hts, hmem⟩ := exists_of_mem_defineCallsAmong horiginal
    subst hd
    obtain ⟨declared, he, hmentioned⟩ := exists_declared hs hrun hm hts hmem
    have hnamed : ∀ id ∈ declared.id :: declared.deps,
        (ShortNames.ofModules _).get? id ≠ none := fun id hid =>
      (not_congr ShortNames.get?_eq_none_iff).mpr
        (not_not.mpr (ShortNames.mem_ids_ofModules.mpr (hmentioned id hid)))
    obtain ⟨id, n, hn, rfl⟩ := exists_of_mem_defineLiterals he hnamed ht
    exact ⟨(id, n), ShortNames.mem_of_get? hn, rfl⟩

/-- Options for two modules, both of which ask for a library that is not part of the bundle. -/
def sharing : Options :=
  { Discovery.inlineOptions ["/a.js"]
      [("/a.js", "define('app.a', ['app.b', 'lib'], (b) => b)"),
        ("/b.js", "define('app.b', ['lib'], () => 0)")] with
    rootNamespace := some "app" }

def sharingModules : List ModuleRecord := [
  ⟨"app.b", "/b.js", "define('app.b', ['lib'], () => 0)", ["lib"], true, true, 0⟩,
  ⟨"app.a", "/a.js", "define('app.a', ['app.b', 'lib'], (b) => b)", ["app.b", "lib"], true, true, 0⟩]

theorem script_restored_sharing : ∃ s d plain renamed, sharing.settings "/" = .ok s ∧
    Discovery.run (Listing.view ∅) s .empty = .ok d ∧ d.modules = sharingModules ∧
    script { s with compressModuleIds := false } sharingModules = .ok plain ∧
    script { s with compressModuleIds := true } sharingModules = .ok renamed ∧
    literalsBy id (withIds (ShortNames.ofModules sharingModules) renamed) = literalsBy id plain ∧
    ∀ arguments ∈ renamed.defineCalls, ∀ t ∈ defineLiterals arguments,
      ∃ e ∈ ShortNames.ofModules sharingModules, t = leaf (.identifier e.2) := by
  have hfound : (Discovery.inlineRun sharing).map (fun r => r.2.modules) = some sharingModules := by
    decide +kernel
  obtain ⟨⟨s, d⟩, hrun, hmodules⟩ := Option.map_eq_some_iff.mp hfound
  obtain ⟨hs, hd⟩ := Discovery.of_inlineRun hrun
  have hunused : Unused (ShortNames.ofModules sharingModules) sharingModules := by
    unfold Unused
    decide +kernel
  have hkeeps : KeepsMarks (ShortNames.ofModules sharingModules) sharingModules := by
    unfold KeepsMarks
    decide +kernel
  obtain ⟨plain, renamed, hplain, hrenamed, hrestored, hnamed⟩ :=
    script_restored s sharingModules fun m hm => Option.isSome_iff_exists.mp (by
      revert m
      decide +kernel)
  exact ⟨s, d, plain, renamed, hs, hd, hmodules, hplain, hrenamed, (hrestored hunused).2 hkeeps,
    hnamed hs hd hmodules⟩

/-- Options for a module whose id is a lone surrogate. -/
def surrogate : Options :=
  Discovery.inlineOptions ["/a.js"] [("/a.js", "define('\\ud800', [], () => 0)")]

def surrogateModule : ModuleRecord :=
  ⟨"\ufffdd800", "/a.js", "define('\\ud800', [], () => 0)", [], true, true, 0⟩

/-- The id of a module is renamed to a variable that holds another text. -/
theorem not_restored_surrogate : ∃ s d plain renamed, surrogate.settings "/" = .ok s ∧
    Discovery.run (Listing.view ∅) s .empty = .ok d ∧ d.modules = [surrogateModule] ∧
    script { s with compressModuleIds := false } [surrogateModule] = .ok plain ∧
    script { s with compressModuleIds := true } [surrogateModule] = .ok renamed ∧
    Unused (ShortNames.ofModules [surrogateModule]) [surrogateModule] ∧
    literalsBy id (withIds (ShortNames.ofModules [surrogateModule]) renamed) ≠
      literalsBy id plain := by
  have hfound : (Discovery.inlineRun surrogate).map (fun r => r.2.modules) =
      some [surrogateModule] := by
    decide +kernel
  obtain ⟨⟨s, d⟩, hrun, hmodules⟩ := Option.map_eq_some_iff.mp hfound
  obtain ⟨hs, hd⟩ := Discovery.of_inlineRun hrun
  have hunused : Unused (ShortNames.ofModules [surrogateModule]) [surrogateModule] := by
    unfold Unused
    decide +kernel
  have hparse : ∀ m ∈ [surrogateModule], (statements? m.source).isSome = true := by
    decide +kernel
  obtain ⟨frame, hhost, hplain, hrenamed⟩ :=
    exists_scripts s fun m hm => Option.isSome_iff_exists.mp (hparse m hm)
  refine ⟨s, d, _, _, hs, hd, hmodules, hplain, hrenamed, hunused, fun hrestored => ?_⟩
  have hliterals := hhost
  simp only [isHost, Bool.and_eq_true] at hliterals
  rw [withIds_fill hhost (ShortNames.isProper_ofModules _)] at hrestored
  have hsame := Frame.literalsByAmong_of_fill hliterals.2 hrestored
  rw [literalsByAmong_append, literalsByAmong_append] at hsame
  replace hsame := List.append_cancel_right hsame
  have hwritten : written s.globalModules [surrogateModule] =
      (statements? surrogateModule.source).getD [] := by
    simp [written, files, members, addMember]
  rw [hwritten] at hsame
  -- the two calls of `define` differ in the mark of their ids
  have hforms := congrArg (fun ts => (defineCallsAmong ts).map fun arguments => arguments.map form)
    hsame
  revert hforms
  decide +kernel

end DefineBundle.Bundle
