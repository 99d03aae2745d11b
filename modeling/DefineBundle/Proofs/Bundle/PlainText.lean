import DefineBundle.Proofs.Bundle.Renamed

/-!
# Plain minified bundles

The code of a minified bundle is plain: a character that is not is written by its numbers, after
everything that goes into the code is there. The banner is put in front of the code after that, as
the settings have it, so a bundle is plain exactly when the version and the release date are, or one
of them is missing.
-/
namespace DefineBundle.Bundle

open DefineBundle.Script
open DefineBundle.Text

/-- There is a script for the modules exactly when each of their files is one. -/
theorem exists_script_iff {s : Settings} {ms : List ModuleRecord} : (∃ t, script s ms = .ok t) ↔
    ∀ f ∈ files (members s.globalModules ms), ∃ ts, statements? f.source = some ts := by
  obtain ⟨loader, frame, hloader, hframe, -⟩ := exists_frame_loaderScript
  rw [script, hloader, scriptInside]
  constructor
  · rintro ⟨t, ht⟩ f hf
    obtain ⟨parts, hparts, -⟩ := exists_of_bind_eq_ok ht
    obtain ⟨part, -, hpart⟩ := exists_of_forall₂ (mapM_eq_ok_iff.mp hparts) hf
    unfold fileStatements at hpart
    split at hpart
    · rename_i ts hts
      exact ⟨ts, hts⟩
    · cases hpart
  · intro h
    exact ⟨_, bind_eq_ok (mapM_fileStatements h) (placed_eq_ok_iff.mpr (hframe _))⟩

/-- A minified bundle is the banner and the printed script, made plain. -/
theorem minified_eq_ok_iff {tools : Tools} {s : Settings} {ms : List ModuleRecord}
    {text : String} : minified tools s ms = .ok text ↔ ∃ t, script s ms = .ok t ∧
      text = s.banner?.getD "" ++ PlainAscii.encode (printed tools s.compression t) := by
  constructor
  · intro h
    obtain ⟨t, ht, hmade⟩ := exists_of_bind_eq_ok h
    refine ⟨t, ht, ?_⟩
    rw [← Except.ok.inj hmade, withBanner, String.ofList_toList]
  · rintro ⟨t, ht, rfl⟩
    refine bind_eq_ok ht ?_
    rw [withBanner, String.ofList_toList]
    rfl

theorem exists_minified_iff {tools : Tools} {s : Settings} {ms : List ModuleRecord} :
    (∃ text, minified tools s ms = .ok text) ↔
      ∀ f ∈ files (members s.globalModules ms), ∃ ts, statements? f.source = some ts := by
  rw [← exists_script_iff]
  constructor
  · rintro ⟨text, h⟩
    obtain ⟨t, ht, -⟩ := minified_eq_ok_iff.mp h
    exact ⟨t, ht⟩
  · rintro ⟨t, ht⟩
    exact ⟨_, minified_eq_ok_iff.mpr ⟨t, ht, rfl⟩⟩

theorem banner_isPlain_iff {s : Settings} :
    (∀ c ∈ (s.banner?.getD "").toList, PlainAscii.isPlain c = true) ↔
      ∀ version ∈ s.version, ∀ date ∈ s.releaseDate,
        ∀ c ∈ version.toList ++ date.toList, PlainAscii.isPlain c = true := by
  cases hversion : s.version with
  | none => simp [Settings.banner?, hversion]
  | some version =>
      cases hdate : s.releaseDate with
      | none => simp [Settings.banner?, hversion, hdate]
      | some date =>
          have hopening := List.all_eq_true.mp (show "// ".toList.all PlainAscii.isPlain from rfl)
          have hmiddle := List.all_eq_true.mp (show " (".toList.all PlainAscii.isPlain from rfl)
          have hend := List.all_eq_true.mp (show ")\n".toList.all PlainAscii.isPlain from rfl)
          simp only [Settings.banner?, hversion, hdate, Option.getD_some, String.toList_append,
            List.forall_mem_append, Option.mem_def, Option.some.injEq, forall_eq']
          rw [and_iff_left hend, and_congr_left_iff.mpr fun _ => and_iff_left hmiddle,
            and_congr_left_iff.mpr fun _ => and_iff_right hopening]

/-- A minified bundle can be made exactly when all files are scripts. Its code is plain, and the
whole of it is exactly when the version and the release date are, or one of them is missing. -/
theorem minified_isPlain_iff (tools : Tools) (s : Settings) (ms : List ModuleRecord) :
    ((∃ text, minified tools s ms = .ok text) ↔
      ∀ f ∈ files (members s.globalModules ms), ∃ ts, statements? f.source = some ts) ∧
    ∀ text, minified tools s ms = .ok text →
      ∃ code, text = s.banner?.getD "" ++ code ∧
        (∀ c ∈ code.toList, PlainAscii.isPlain c = true) ∧
        ((∀ c ∈ text.toList, PlainAscii.isPlain c = true) ↔
          ∀ version ∈ s.version, ∀ date ∈ s.releaseDate,
            ∀ c ∈ version.toList ++ date.toList, PlainAscii.isPlain c = true) := by
  refine ⟨exists_minified_iff, fun text h => ?_⟩
  obtain ⟨t, -, rfl⟩ := minified_eq_ok_iff.mp h
  have hcode : ∀ c ∈ (PlainAscii.encode (printed tools s.compression t)).toList,
      PlainAscii.isPlain c = true := fun c => PlainAscii.isPlain_of_mem_encode
  refine ⟨_, rfl, hcode, ?_⟩
  rw [String.toList_append, List.forall_mem_append, banner_isPlain_iff]
  exact and_iff_left hcode

/-- A greeting in another language, with a banner. Its code is not changed. -/
def greetingOptions (version : String) : Options :=
  { Discovery.inlineOptions ["/a.js"] [("/a.js", "define('a', [], () => 'héllo');")] with
    version := some version, releaseDate := some "2020-01-01",
    compression := some (.enabled false) }

theorem minified_isPlain_greeting : ∃ s d text, (greetingOptions "1.0").settings "/" = .ok s ∧
    Discovery.run (Listing.view ∅) s .empty = .ok d ∧ d.modules ≠ [] ∧ s.compression = none ∧
    minified Tools.standard s d.modules = .ok text ∧ s.banner? = some "// 1.0 (2020-01-01)\n" ∧
    ∀ c ∈ text.toList, PlainAscii.isPlain c = true := by
  have hfound : (Discovery.inlineRun (greetingOptions "1.0")).map (fun r =>
      (r.1.version, r.1.releaseDate, r.2.modules.length, r.1.compression,
        (files (members r.1.globalModules r.2.modules)).all fun f =>
          (statements? f.source).isSome)) =
      some (some "1.0", some "2020-01-01", 1, none, true) := by
    decide +kernel
  obtain ⟨⟨s, d⟩, hrun, he⟩ := Option.map_eq_some_iff.mp hfound
  simp only [Prod.mk.injEq, List.all_eq_true] at he
  obtain ⟨hversion, hdate, hlength, hlayout, hparse⟩ := he
  obtain ⟨hs, hd⟩ := Discovery.of_inlineRun hrun
  obtain ⟨hmade, hplain⟩ := minified_isPlain_iff Tools.standard s d.modules
  obtain ⟨text, htext⟩ := hmade.mpr fun f hf => Option.isSome_iff_exists.mp (hparse f hf)
  obtain ⟨-, -, -, hiff⟩ := hplain text htext
  refine ⟨s, d, text, hs, hd, ?_, hlayout, htext,
    by rw [Settings.banner?, hversion, hdate]; rfl, ?_⟩
  · rintro hnil
    rw [hnil] at hlength
    cases hlength
  · refine hiff.mpr ?_
    simp only [hversion, hdate, Option.mem_def, Option.some.injEq, forall_eq']
    exact List.all_eq_true.mp rfl

/-- A version with an accent stands in front of the bundle as it is. -/
theorem minified_accented_version : ∃ s d text, (greetingOptions "1.0é").settings "/" = .ok s ∧
    Discovery.run (Listing.view ∅) s .empty = .ok d ∧ s.compression = none ∧
    minified Tools.standard s d.modules = .ok text ∧
    ∃ c ∈ text.toList, PlainAscii.isPlain c = false := by
  have hfound : (Discovery.inlineRun (greetingOptions "1.0é")).map (fun r =>
      (r.1.banner?, r.1.compression,
        (files (members r.1.globalModules r.2.modules)).all fun f =>
          (statements? f.source).isSome)) = some (some "// 1.0é (2020-01-01)\n", none, true) := by
    decide +kernel
  obtain ⟨⟨s, d⟩, hrun, he⟩ := Option.map_eq_some_iff.mp hfound
  simp only [Prod.mk.injEq, List.all_eq_true] at he
  obtain ⟨hbanner, hlayout, hparse⟩ := he
  obtain ⟨hs, hd⟩ := Discovery.of_inlineRun hrun
  obtain ⟨text, htext⟩ : ∃ text, minified Tools.standard s d.modules = .ok text :=
    exists_minified_iff.mpr fun f hf => Option.isSome_iff_exists.mp (hparse f hf)
  refine ⟨s, d, text, hs, hd, hlayout, htext, 'é', ?_, by decide⟩
  obtain ⟨t, -, rfl⟩ := minified_eq_ok_iff.mp htext
  rw [hbanner, Option.getD_some, String.toList_append]
  exact List.mem_append_left _ (by decide)

end DefineBundle.Bundle
