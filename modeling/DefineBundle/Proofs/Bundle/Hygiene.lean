import DefineBundle.Proofs.Bundle.Renamed

/-!
# Names for ids among the names of modules

The name of an id is bound by the prologue and stands wherever the id was renamed. The loader knows
no such name. A module may: names are made from ids alone, and whether a module has a variable of
that name is not looked at. The prologue is the only place that binds the name as long as no module
binds it, too; and it stands for the id wherever it is mentioned as long as no module mentions it.
-/
namespace DefineBundle.Bundle

open DefineBundle.Discovery (run inlineOptions inlineRun of_inlineRun)
open DefineBundle.Script DefineBundle.Script.Tree

variable {names : ShortNames} {ms : List ModuleRecord} {n : String}

/-- The names that stand for ids in a script: in the calls of `define`, in the global names and in
the call that publishes modules. -/
def references (names : ShortNames) (s : Settings) (ms : List ModuleRecord) : List String :=
  insertedAmong names.get? (written s.globalModules ms) ++
    ((globalNames s.globalModules ms).map Prod.fst ++ exposedIds ms).filterMap names.get?

theorem mentionsAmong_prologue (names : ShortNames) :
    mentionsAmong (prologue names) = names.map Prod.snd := by
  have hdeclarators : ∀ es : ShortNames, mentionsAmong (es.map fun e =>
      node .declarator [leaf (.identifier e.2), leaf (.string e.1 false)]) = es.map Prod.snd := by
    intro es
    induction es with
    | nil => rfl
    | cons e es ih =>
        rw [List.map_cons, mentionsAmong, ih]
        rfl
  cases names with
  | nil => rfl
  | cons e es =>
      rw [prologue, List.isEmpty_cons, if_neg Bool.false_ne_true, mentionsAmong, mentions]
      exact (List.append_nil _).trans (hdeclarators (e :: es))

theorem bindsAmong_prologue (names : ShortNames) :
    bindsAmong (prologue names) = names.map Prod.snd := by
  have hdeclarators : ∀ es : ShortNames, bindsAmong (es.map fun e =>
      node .declarator [leaf (.identifier e.2), leaf (.string e.1 false)]) = es.map Prod.snd := by
    intro es
    induction es with
    | nil => rfl
    | cons e es ih =>
        rw [List.map_cons, bindsAmong, ih]
        rfl
  cases names with
  | nil => rfl
  | cons e es =>
      rw [prologue, List.isEmpty_cons, if_neg Bool.false_ne_true, bindsAmong, binds]
      exact (List.append_nil _).trans (hdeclarators (e :: es))

theorem mentions_idExpression (id : String) :
    mentions (idExpression names id) = (names.get? id).toList := by
  unfold idExpression
  split <;> (rename_i h; rw [h]; rfl)

theorem binds_idExpression (id : String) : binds (idExpression names id) = [] := by
  unfold idExpression
  split <;> rfl

theorem mentionsAmong_idExpressions (ids : List String) :
    mentionsAmong (ids.map (idExpression names)) = ids.filterMap names.get? := by
  induction ids with
  | nil => rfl
  | cons id ids ih =>
      rw [List.map_cons, mentionsAmong, mentions_idExpression, ih, List.filterMap_cons]
      cases names.get? id <;> rfl

theorem bindsAmong_epilogue (s : Settings) (ms : List ModuleRecord) :
    bindsAmong (epilogue names s ms) = [] := by
  have halias : ∀ e, binds (aliasTree names e) = [] := by
    intro e
    have hid : binds (idExpression names e.1) = [] := binds_idExpression e.1
    rw [aliasTree]
    simp [binds, bindsAmong, ownBinds, Form.literal?, Form.bind?, targetParts, targetsAmong, hid]
  have hexpose : binds (exposeTree names (exposedIds ms)) = [] := by
    have hids : bindsAmong ((exposedIds ms).map (idExpression names)) = [] := by
      simp [bindsAmong_eq, List.flatMap_map, binds_idExpression]
    rw [exposeTree]
    simp [binds, bindsAmong, ownBinds, Form.literal?, Form.bind?, targetParts, targetsAmong, hids]
  rw [epilogue, bindsAmong_append, bindsAmong_eq, List.flatMap_map]
  simp only [halias, List.flatMap_eq_nil_iff, implies_true, List.append_eq_nil_iff, true_and]
  split
  · rfl
  · rw [bindsAmong, hexpose]
    rfl

/-- The epilogue mentions a name that stands for an id just where the id is asked for. -/
theorem count_mentionsAmong_epilogue (s : Settings) (ms : List ModuleRecord)
    (hn : n.toList.head? = some '_') : (mentionsAmong (epilogue names s ms)).count n =
      (((globalNames s.globalModules ms).map Prod.fst ++ exposedIds ms).filterMap
        names.get?).count n := by
  have hother : ∀ {other : String}, other.toList.head? ≠ some '_' → other ≠ n := by
    rintro other hother rfl
    exact hother hn
  have haliases : ∀ es : List (String × String),
      (mentionsAmong (es.map (aliasTree names))).count n =
        ((es.map Prod.fst).filterMap names.get?).count n := by
    intro es
    induction es with
    | nil => rfl
    | cons e es ih =>
        have halias : mentions (aliasTree names e) =
            ["exports", "modules"] ++ (names.get? e.1).toList := by
          simp [aliasTree, mentions, mentionsAmong, Form.literal?, Form.mention?,
            mentions_idExpression]
        have hwords : ["exports", "modules"].count n = 0 := by
          simp [hother (show "exports".toList.head? ≠ some '_' by decide),
            hother (show "modules".toList.head? ≠ some '_' by decide)]
        rw [List.map_cons, mentionsAmong, List.count_append, ih, halias, List.count_append, hwords,
          List.map_cons, count_filterMap_cons, Nat.zero_add]
  rw [epilogue, mentionsAmong_append, List.count_append, haliases, List.filterMap_append,
    List.count_append]
  congr 1
  split
  · rename_i hempty
    rw [List.isEmpty_iff.mp hempty]
    rfl
  · have hexpose : mentions (exposeTree names (exposedIds ms)) =
        "expose" :: (exposedIds ms).filterMap names.get? := by
      simp [exposeTree, mentions, mentionsAmong, Form.literal?, Form.mention?,
        mentionsAmong_idExpressions]
    have hword : "expose" ≠ n := hother (by decide)
    rw [mentionsAmong, hexpose]
    simp [mentionsAmong, hword]

/-- How often a script binds and mentions a name that stands for an id. -/
theorem exists_script_counts (s : Settings)
    (hparse : ∀ m ∈ ms, ∃ ts, statements? m.source = some ts) :
    ∃ frame t, script { s with compressModuleIds := true } ms = .ok t ∧
      t = Frame.fill (prologue (ShortNames.ofModules ms) ++
        renameDefinesAmong (ShortNames.ofModules ms).get? (written s.globalModules ms) ++
          epilogue (ShortNames.ofModules ms) s ms) frame ∧
      ∀ e ∈ ShortNames.ofModules ms, e.2 ∉ mentions (frame.fill []) ∧
        (binds t).count e.2 = 1 + (bindsAmong (written s.globalModules ms)).count e.2 ∧
        (mentions t).count e.2 = 1 + (references (ShortNames.ofModules ms) s ms).count e.2 +
          (mentionsAmong (written s.globalModules ms)).count e.2 := by
  obtain ⟨frame, hhost, -, hscript⟩ := exists_scripts s hparse
  obtain ⟨hnodup, hhead⟩ := ShortNames.isProper_ofModules ms
  simp only [isHost, Bool.and_eq_true, List.all_eq_true, bne_iff_ne] at hhost
  obtain ⟨⟨⟨hmentions, -⟩, -⟩, hplain⟩ := hhost
  refine ⟨frame, _, hscript, rfl, fun e he => ?_⟩
  have hloader : e.2 ∉ mentions (frame.fill []) := fun h => hmentions e.2 h (hhead e he)
  have hloader' : e.2 ∉ binds (frame.fill []) := fun h => hloader (binds_subset_mentions _ h)
  have hname : ((ShortNames.ofModules ms).map Prod.snd).count e.2 = 1 :=
    List.count_eq_one_of_mem hnodup (List.mem_map_of_mem he)
  refine ⟨hloader, ?_, ?_⟩
  · rw [Frame.count_binds_fill e.2 hplain, List.count_eq_zero_of_not_mem hloader', Nat.zero_add,
      bindsAmong_append, bindsAmong_append, bindsAmong_renameDefinesAmong, bindsAmong_epilogue,
      List.append_nil, List.count_append, bindsAmong_prologue, hname]
  · rw [Frame.count_mentions_fill e.2 hplain, List.count_eq_zero_of_not_mem hloader, Nat.zero_add,
      mentionsAmong_append, mentionsAmong_append, List.count_append, List.count_append,
      mentionsAmong_prologue, hname, count_mentionsAmong_renameDefinesAmong,
      count_mentionsAmong_epilogue s ms (hhead e he), references, List.count_append]
    omega

/-- A name that stands for an id is never mentioned by the loader. The prologue is the only place
of the script that binds the name just when no file binds it, and the prologue and the references to
the id are the only places that mention it just when no file mentions it; in particular when no
module does. -/
theorem names_hygienic (s : Settings)
    (hparse : ∀ m ∈ ms, ∃ ts, statements? m.source = some ts) :
    ∃ frame t, script { s with compressModuleIds := true } ms = .ok t ∧
      t = Frame.fill (prologue (ShortNames.ofModules ms) ++
        renameDefinesAmong (ShortNames.ofModules ms).get? (written s.globalModules ms) ++
          epilogue (ShortNames.ofModules ms) s ms) frame ∧
      ∀ e ∈ ShortNames.ofModules ms, e.2 ∉ mentions (frame.fill []) ∧
        ((binds t).count e.2 = 1 ↔ e.2 ∉ bindsAmong (written s.globalModules ms)) ∧
        ((mentions t).count e.2 = 1 + (references (ShortNames.ofModules ms) s ms).count e.2 ↔
          e.2 ∉ mentionsAmong (written s.globalModules ms)) ∧
        ((∀ m ∈ ms, ∀ ts ∈ statements? m.source, e.2 ∉ mentionsAmong ts) →
          e.2 ∉ mentionsAmong (written s.globalModules ms) ∧
            e.2 ∉ bindsAmong (written s.globalModules ms)) := by
  obtain ⟨frame, t, hscript, ht, hcounts⟩ := exists_script_counts s hparse
  refine ⟨frame, t, hscript, ht, fun e he => ?_⟩
  obtain ⟨hloader, hbinds, hmentions⟩ := hcounts e he
  refine ⟨hloader, ?_, ?_, fun hno => ?_⟩
  · rw [hbinds, ← List.count_eq_zero]
    omega
  · rw [hmentions, ← List.count_eq_zero]
    omega
  · have hwritten : e.2 ∉ mentionsAmong (written s.globalModules ms) := by
      intro h
      rw [mentionsAmong_eq] at h
      obtain ⟨u, hu, hn⟩ := List.mem_flatMap.mp h
      obtain ⟨m, hm, ts, hts, hut⟩ := exists_of_mem_written hu
      refine hno m hm ts hts ?_
      rw [mentionsAmong_eq]
      exact List.mem_flatMap.mpr ⟨u, hut, hn⟩
    exact ⟨hwritten, fun h => hwritten (bindsAmong_subset_mentionsAmong _ h)⟩

/-- A module with a variable next to its call of `define`. -/
def variableModule (name : String) : ModuleRecord :=
  ⟨"a", "/a.js", "var " ++ name ++ " = 5; define('a', [], () => " ++ name ++ ")", [], true, true, 0⟩

/-- A variable that has the id of its module for a name, and not the name that stands for the id. -/
theorem names_hygienic_elsewhere : ∃ s d t,
    (inlineOptions ["/a.js"] [("/a.js", (variableModule "a").source)]).settings "/" = .ok s ∧
      run (Listing.view ∅) s .empty = .ok d ∧
      script { s with compressModuleIds := true } d.modules = .ok t ∧
      (binds t).count "_a" = 1 ∧
      (mentions t).count "_a" =
        1 + (references (ShortNames.ofModules d.modules) s d.modules).count "_a" := by
  have hfound : (inlineRun (inlineOptions ["/a.js"] [("/a.js", (variableModule "a").source)])).map
      (fun r => r.2.modules) = some [variableModule "a"] := by
    decide +kernel
  have hparse : ∀ m ∈ [variableModule "a"], (statements? m.source).isSome = true := by
    decide +kernel
  have hunused :
      ∀ m ∈ [variableModule "a"], ∀ ts ∈ statements? m.source, "_a" ∉ mentionsAmong ts := by
    decide +kernel
  obtain ⟨⟨s, d⟩, hrun, hms⟩ := Option.map_eq_some_iff.mp hfound
  dsimp only at hms
  obtain ⟨hs, hd⟩ := of_inlineRun hrun
  obtain ⟨frame, t, hscript, -, hnames⟩ :=
    @names_hygienic [variableModule "a"] s fun m hm => Option.isSome_iff_exists.mp (hparse m hm)
  obtain ⟨-, hbinds, hmentions, hfiles⟩ := hnames ("a", "_a") (by decide +kernel)
  obtain ⟨hno, hno'⟩ := hfiles hunused
  refine ⟨s, d, t, hs, hd, ?_⟩
  rw [hms]
  exact ⟨hscript, hbinds.mpr hno', hmentions.mpr hno⟩

/-- The options of a module whose variable has the name that stands for its id. -/
def captured : Options :=
  inlineOptions ["/a.js"] [("/a.js", (variableModule "_a").source)]

/-- The variable of the module takes the name that stands for its id. -/
theorem names_captured : ∃ s d, captured.settings "/" = .ok s ∧
    run (Listing.view ∅) s .empty = .ok d ∧ s.compressModuleIds = true ∧
    ∃ e ∈ ShortNames.ofModules d.modules, (∃ m ∈ d.modules, ∃ ts ∈ statements? m.source,
      e.2 ∈ bindsAmong ts) ∧ ∃ t, script s d.modules = .ok t ∧ (binds t).count e.2 = 2 := by
  have hfound : (inlineRun captured).map (fun r => (r.2.modules, r.1.compressModuleIds)) =
      some ([variableModule "_a"], true) := by
    decide +kernel
  obtain ⟨⟨s, d⟩, hrun, he⟩ := Option.map_eq_some_iff.mp hfound
  obtain ⟨hs, hd⟩ := of_inlineRun hrun
  simp only [Prod.mk.injEq] at he
  obtain ⟨hms, hcompress⟩ := he
  have hparse : ∀ m ∈ [variableModule "_a"], (statements? m.source).isSome = true := by
    decide +kernel
  have hbound : ((statements? (variableModule "_a").source).map fun ts =>
      (bindsAmong ts).count "_a") = some 1 := by
    decide +kernel
  obtain ⟨ts, hts, hcount⟩ := Option.map_eq_some_iff.mp hbound
  have hname : ("a", "_a") ∈ ShortNames.ofModules [variableModule "_a"] := by
    decide +kernel
  obtain ⟨frame, t, hscript, -, hcounts⟩ := exists_script_counts s fun m hm =>
    Option.isSome_iff_exists.mp (hparse m hm)
  have hwritten : written s.globalModules [variableModule "_a"] = ts := by
    simp [written, files, members, addMember, hts]
  have hsame : { s with compressModuleIds := true } = s := by
    rw [← hcompress]
  have hpos : 0 < (bindsAmong ts).count "_a" := by omega
  refine ⟨s, d, hs, hd, hcompress, ("a", "_a"), hms ▸ hname,
    ⟨variableModule "_a", by simp [hms], ts,
    hts, List.count_pos_iff.mp hpos⟩, t, ?_, ?_⟩
  · rw [hms, ← hscript, hsame]
  · rw [(hcounts _ hname).2.1, hwritten, hcount]

end DefineBundle.Bundle
