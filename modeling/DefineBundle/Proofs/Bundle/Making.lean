import DefineBundle.Bundle.Generate
import DefineBundle.Proofs.Lists.Traversals
import DefineBundle.Proofs.Text.Search

/-!
# Making bundles

A bundle is made for each target that has a path, in the order of the targets; a coverage bundle
only when there is an instrumenter. All are made exactly when each of them can be. A loader that has
a place for code takes any code, so a readable bundle fails only if its instrumenter does. What
changes the code of scripts has no say unless a minified bundle asks for it.
-/
namespace DefineBundle.Bundle

open DefineBundle.Text

def asset? (m : Material) (t : Target) : Option Asset :=
  (m.settings.outputs.path? t).bind fun path => match content m path t with
    | .ok (some text) => some ⟨t, path, text⟩
    | _ => none

theorem asset?_of_content {m : Material} {t : Target} {path text : String}
    (hp : m.settings.outputs.path? t = some path) (hc : content m path t = .ok (some text)) :
    asset? m t = some ⟨t, path, text⟩ := by
  rw [asset?, hp, Option.bind_some, hc]

theorem asset?_eq_none (m : Material) {t : Target} (h : m.settings.outputs.path? t = none) :
    asset? m t = none := by
  rw [asset?, h]
  rfl

theorem asset?_eq_some {m : Material} {t : Target} {a : Asset} (h : asset? m t = some a) :
    a.target = t ∧ m.settings.outputs.path? t = some a.path := by
  unfold asset? at h
  obtain ⟨path, hp, h⟩ := Option.bind_eq_some_iff.mp h
  split at h
  · cases h
    exact ⟨rfl, hp⟩
  · cases h

theorem step_eq_ok {m : Material} {g g' : Generation} {t : Target}
    (h : Generation.step m g t = .ok g') :
    g'.assets = g.assets ++ (asset? m t).toList ∧
      ∀ path, m.settings.outputs.path? t = some path → ∃ c, content m path t = .ok c := by
  unfold Generation.step at h
  unfold asset?
  cases hp : m.settings.outputs.path? t with
  | none =>
      simp only [hp, Except.ok.injEq] at h
      simp [← h]
  | some path =>
      simp only [hp] at h
      cases hc : content m path t with
      | error e => simp [hc] at h
      | ok made =>
          refine ⟨?_, fun q hq => ⟨made, by rw [← Option.some.inj hq, hc]⟩⟩
          cases made with
          | none =>
              simp only [hc, Except.ok.injEq] at h
              simp [← h, hc, Generation.skip]
          | some text =>
              simp only [hc, Except.ok.injEq] at h
              simp [← h, hc, Generation.add]

theorem foldlM_step_eq_ok {m : Material} {ts : List Target} {g g' : Generation}
    (h : ts.foldlM (Generation.step m) g = .ok g') :
    g'.assets = g.assets ++ ts.filterMap (asset? m) ∧
      ∀ t ∈ ts, ∀ path, m.settings.outputs.path? t = some path →
        ∃ c, content m path t = .ok c := by
  induction ts generalizing g with
  | nil =>
      cases h
      simp
  | cons t ts ih =>
      rw [List.foldlM_cons] at h
      obtain ⟨g₁, hg₁, h⟩ := exists_of_bind_eq_ok h
      obtain ⟨hassets, hcontent⟩ := step_eq_ok hg₁
      obtain ⟨hrest, hcontents⟩ := ih h
      refine ⟨?_, fun t' ht' => ?_⟩
      · rw [hrest, hassets, List.append_assoc, List.filterMap_cons]
        cases asset? m t <;> rfl
      · rcases List.mem_cons.mp ht' with rfl | ht'
        · exact hcontent
        · exact hcontents t' ht'

theorem exists_foldlM_step {m : Material} {ts : List Target}
    (h : ∀ t ∈ ts, ∀ path, m.settings.outputs.path? t = some path → ∃ c, content m path t = .ok c)
    (g : Generation) : ∃ g', ts.foldlM (Generation.step m) g = .ok g' := by
  induction ts generalizing g with
  | nil => exact ⟨g, rfl⟩
  | cons t ts ih =>
      have hstep : ∃ g₁, Generation.step m g t = .ok g₁ := by
        unfold Generation.step
        cases hp : m.settings.outputs.path? t with
        | none => exact ⟨g, rfl⟩
        | some path =>
            obtain ⟨c, hc⟩ := h t List.mem_cons_self path hp
            cases c <;> simp [hc]
      obtain ⟨g₁, hg₁⟩ := hstep
      obtain ⟨g', hg'⟩ := ih (fun t ht => h t (List.mem_cons_of_mem _ ht)) g₁
      exact ⟨g', by rw [List.foldlM_cons, hg₁]; exact hg'⟩

/-- All bundles are made exactly when each that is asked for can be. -/
theorem exists_generate_iff {m : Material} : (∃ g, generate m = .ok g) ↔
    ∀ t path, m.settings.outputs.path? t = some path → ∃ c, content m path t = .ok c := by
  have hall : ∀ t : Target, t ∈ Target.all := fun t => by cases t <;> simp [Target.all]
  constructor
  · rintro ⟨g, hg⟩ t
    exact (foldlM_step_eq_ok hg).2 t (hall t)
  · intro h
    exact exists_foldlM_step (fun t _ => h t) _

theorem printed_of_not_changesCode {compression : Option Compression}
    (h : ∀ c, compression = some c → c.changesCode = false) (tools tools' : Tools)
    (t : Script.Tree) : printed tools compression t = printed tools' compression t := by
  cases compression with
  | none => rfl
  | some c => rw [printed, printed, h c rfl, if_neg Bool.false_ne_true, if_neg Bool.false_ne_true]

/-- Nobody is asked to change the code of a script where no minified bundle is asked for, or none
whose code is to be changed. -/
theorem generate_of_instrument {m : Material} (h : m.settings.outputs.minified = none ∨
      ∀ c, m.settings.compression = some c → c.changesCode = false)
    {tools : Tools} (hinstrument : tools.instrument = m.tools.instrument) :
    generate { m with tools } = generate m := by
  have hcontent : ∀ t path, m.settings.outputs.path? t = some path →
      content { m with tools } path t = content m path t := by
    intro t path hpath
    cases t with
    | source => rfl
    | development => rfl
    | coverage => simp only [content, hinstrument]
    | minified =>
        have hcode := h.resolve_left fun hnone => by
          rw [Outputs.path?, hnone] at hpath
          cases hpath
        simp only [content, minified, printed_of_not_changesCode hcode tools m.tools]
  have hstep : Generation.step { m with tools } = Generation.step m := by
    funext g t
    unfold Generation.step
    cases hpath : m.settings.outputs.path? t with
    | none => rfl
    | some path =>
        dsimp only
        rw [hcontent t path hpath]
  rw [generate, hstep, generate]

theorem assets_of_generate {m : Material} {g : Generation} (h : generate m = .ok g) :
    g.assets = Target.all.filterMap (asset? m) := by
  have hassets := (foldlM_step_eq_ok h).1
  rwa [Generation.empty, List.nil_append] at hassets

theorem content_of_mem_assets {m : Material} {g : Generation} {a : Asset} (h : generate m = .ok g)
    (ha : a ∈ g.assets) : content m a.path a.target = .ok (some a.content) := by
  rw [assets_of_generate h] at ha
  obtain ⟨t, -, ha⟩ := List.mem_filterMap.mp ha
  unfold asset? at ha
  obtain ⟨path, -, ha⟩ := Option.bind_eq_some_iff.mp ha
  split at ha
  · rename_i hcontent
    cases ha
    exact hcontent
  · cases ha

theorem development_of_generate {m : Material} {g : Generation} {path : String}
    (h : generate m = .ok g) (hp : m.settings.outputs.development = some path) :
    ∃ text, development m.settings m.modules m.fingerprint path = .ok text ∧
      asset? m .development = some ⟨.development, path, text⟩ := by
  have hpath : m.settings.outputs.path? .development = some path := hp
  obtain ⟨c, hc⟩ := (foldlM_step_eq_ok h).2 .development (by simp [Target.all]) path hpath
  have hcontent : content m path .development =
      some <$> development m.settings m.modules m.fingerprint path := rfl
  rw [hcontent] at hc
  generalize hd : development m.settings m.modules m.fingerprint path = made at hc hcontent
  cases made with
  | error e => cases hc
  | ok text => exact ⟨text, rfl, asset?_of_content hpath hcontent⟩

/-- The last lines of both loaders: the place for code, and the end of the script. -/
def lastLines : List Char :=
  '\t' :: (Loader.codePlace ++ "\n\x7d)(this);\n".toList)

theorem inlineText_eq : ∃ cs, Loader.inlineText = cs ++ lastLines := by
  have hlines : Loader.inlineLines =
      Loader.inlineLines.dropLast.dropLast ++ ["\t$code();", "\x7d)(this);"] := rfl
  rw [Loader.inlineText, hlines, Loader.text, List.flatMap_append]
  exact ⟨_, rfl⟩

theorem developmentText_eq : ∃ cs, Loader.developmentText = cs ++ lastLines := by
  have hlines : Loader.developmentLines =
      Loader.developmentLines.dropLast.dropLast ++ ["\t$code();", "\x7d)(this);"] := rfl
  rw [Loader.developmentText, hlines, Loader.text, List.flatMap_append]
  exact ⟨_, rfl⟩

/-- The name of its own file has no say in how the loader of a development bundle ends. -/
theorem developmentLoader_eq (path : String) : ∃ cs, developmentLoader path = cs ++ lastLines := by
  obtain ⟨cs, hcs⟩ := developmentText_eq
  have hne : Loader.fileNamePlace ≠ [] := by decide
  generalize hvalue : (Path.fileName? path).getD [] = value
  have htail : replaceFrom Loader.fileNamePlace value 0
      (Loader.codePlace ++ "\n\x7d)(this);\n".toList) =
      Loader.codePlace ++ "\n\x7d)(this);\n".toList := rfl
  refine ⟨replaceAll Loader.fileNamePlace value cs, ?_⟩
  unfold developmentLoader replaceAll
  rw [hvalue, hcs, lastLines, if_neg (by decide), if_neg (by decide),
    replaceFrom_append_cons hne (by decide) value _ (Nat.zero_le _), htail]

/-- A loader that ends so takes any code, and the bundle ends in the same line. -/
theorem exists_insertCode? {loader cs : List Char} (h : loader = cs ++ lastLines)
    (code : List Char) : ∃ bundle, Loader.insertCode? loader code = some bundle ∧
      "\n\x7d)(this);\n".toList <:+ bundle := by
  have hloader : loader = (cs ++ ['\t']) ++ (Loader.codePlace ++ "\n\x7d)(this);\n".toList) := by
    rw [h, lastLines, List.append_assoc, List.singleton_append]
  obtain ⟨front, back, hsplit, hback⟩ :=
    exists_splitFirst? Loader.codePlace (cs ++ ['\t']) "\n\x7d)(this);\n".toList
  refine ⟨trimEnd front ++ code ++ back, ?_, hback.trans (List.suffix_append _ _)⟩
  rw [Loader.insertCode?, hloader, hsplit]
  rfl

theorem exists_development (s : Settings) (ms : List ModuleRecord) (fingerprint path : String) :
    ∃ text, development s ms fingerprint path = .ok text := by
  obtain ⟨cs, hcs⟩ := developmentLoader_eq path
  obtain ⟨bundle, hbundle, -⟩ := exists_insertCode? hcs
    (['\n', '\n', '\t'] ++ trim (developmentCode s ms path))
  exact ⟨_, bind_eq_ok (placed_eq_ok_iff.mpr hbundle) rfl⟩

theorem exists_sections {instrument : Option Instrumenter}
    (h : ∀ f, ∃ source, instrumented instrument f = .ok source) (s : Settings)
    (ms : List ModuleRecord) : ∃ written, sections instrument s ms = .ok written := by
  have hwritten : ∀ f : BundleFile, ∃ cs, (do
      return fileSection f (← instrumented instrument f) : Except Failure _) = .ok cs := by
    intro f
    obtain ⟨source, hsource⟩ := h f
    exact ⟨_, bind_eq_ok hsource rfl⟩
  unfold sections
  obtain ⟨ys, hys⟩ := exists_mapM_eq_ok fun f (_ : f ∈ files (members s.globalModules ms)) =>
    hwritten f
  rw [hys]
  exact ⟨_, rfl⟩

theorem exists_readable {instrument : Option Instrumenter}
    (h : ∀ f, ∃ source, instrumented instrument f = .ok source) (s : Settings)
    (ms : List ModuleRecord) : ∃ text, readable instrument s ms = .ok text := by
  obtain ⟨written, hwritten⟩ := exists_sections h s ms
  obtain ⟨cs, hcs⟩ := inlineText_eq
  obtain ⟨bundle, hbundle, -⟩ := exists_insertCode? hcs
    (['\n', '\n'] ++ joinWith ['\n', '\n'] written)
  exact ⟨_, bind_eq_ok hwritten (bind_eq_ok (placed_eq_ok_iff.mpr hbundle) rfl)⟩

/-- Without a minified bundle, all bundles can be made when all sources can be instrumented. -/
theorem exists_generate_of_instrumented {m : Material}
    (hminified : m.settings.outputs.minified = none)
    (h : ∀ i, m.tools.instrument = some i → ∀ f, ∃ source, instrumented (some i) f = .ok source) :
    ∃ g, generate m = .ok g := by
  have hplain : ∀ f, ∃ source, instrumented none f = .ok source := fun f => ⟨f.source, rfl⟩
  refine exists_generate_iff.mpr fun t path hp => ?_
  cases t with
  | source =>
      obtain ⟨text, htext⟩ := exists_readable hplain m.settings m.modules
      exact ⟨some text, by rw [content, htext]; rfl⟩
  | minified => exact absurd (hminified.symm.trans hp) (Option.some_ne_none path).symm
  | development =>
      obtain ⟨text, htext⟩ := exists_development m.settings m.modules m.fingerprint path
      exact ⟨some text, by rw [content, htext]; rfl⟩
  | coverage =>
      cases hi : m.tools.instrument with
      | none => exact ⟨none, by rw [content, hi]⟩
      | some i =>
          obtain ⟨text, htext⟩ := exists_readable (h i hi) m.settings m.modules
          exact ⟨some text, by simp only [content, hi, htext]; rfl⟩

theorem asset?_of_generate {m : Material} {g : Generation} {t : Target} {path : String}
    (h : generate m = .ok g) (hp : m.settings.outputs.path? t = some path)
    (hleft : content m path t ≠ .ok none) : ∃ text, content m path t = .ok (some text) ∧
      asset? m t = some ⟨t, path, text⟩ := by
  obtain ⟨c, hc⟩ := exists_generate_iff.mp ⟨g, h⟩ t path hp
  cases c with
  | none => exact absurd hc hleft
  | some text => exact ⟨text, hc, asset?_of_content hp hc⟩

end DefineBundle.Bundle
