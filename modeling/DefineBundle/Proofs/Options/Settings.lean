import DefineBundle.Failure
import DefineBundle.Options.Settings
import Mathlib.Data.List.Pairwise

/-!
# Settings of options

Two bundles never go to one path: options that ask for it are no settings. Where places are named by
texts, all paths of the settings are texts.
-/
namespace DefineBundle

namespace Outputs

theorem mem_paths_iff {π : Type} {o : Outputs π} {p : π} :
    p ∈ o.paths ↔ ∃ t, o.path? t = some p := by
  unfold paths
  rw [List.mem_filterMap]
  constructor
  · rintro ⟨t, -, ht⟩
    exact ⟨t, ht⟩
  · rintro ⟨t, ht⟩
    exact ⟨t, by cases t <;> simp [Target.all], ht⟩

/-- Where no path comes twice, bundles of two kinds go to two paths. -/
theorem path_ne_of_nodup {o : Outputs} {t t' : Target} {p p' : String} (hn : o.paths.Nodup)
    (hne : t ≠ t') (h : o.path? t = some p) (h' : o.path? t' = some p') : p ≠ p' := by
  have hall : ∀ t : Target, t ∈ Target.all := fun t => by cases t <;> simp [Target.all]
  have hpair := List.pairwise_filterMap.mp hn
  have : Std.Symm fun t t' : Target =>
      ∀ b, o.path? t = some b → ∀ b', o.path? t' = some b' → b ≠ b' :=
    ⟨fun _ _ hab b hb b' hb' => (hab b' hb' b hb).symm⟩
  exact hpair.forall (hall t) (hall t') hne p h p' h'

end Outputs

namespace Options

theorem repeated?_eq_none_iff {seen ps : List String} :
    repeated? seen ps = none ↔ ps.Nodup ∧ ∀ p ∈ ps, p ∉ seen := by
  induction ps generalizing seen with
  | nil => simp [repeated?]
  | cons p ps ih =>
      by_cases hp : p ∈ seen
      · simp [repeated?, hp]
      · simp only [repeated?, List.contains_eq_mem, hp, decide_false, Bool.false_eq_true, if_false,
          ih, List.mem_cons, not_or, List.nodup_cons, forall_eq_or_imp, not_false_eq_true, true_and]
        constructor
        · rintro ⟨hn, hall⟩
          exact ⟨⟨fun hm => (hall p hm).1 rfl, hn⟩, fun q hq => (hall q hq).2⟩
        · rintro ⟨⟨hm, hn⟩, hall⟩
          exact ⟨hn, fun q hq => ⟨fun he => hm (he ▸ hq), hall q hq⟩⟩

/-- What settings make of the paths of options: all are seen from the working directory, and no two
bundles go to one of them. -/
structure Resolved (o : Options) (current : String) (s : Settings) : Prop where
  input : s.input = (o.inputs.elim [] Inputs.patterns).map (resolvePath (o.directory current))
  outputs : s.outputs = o.outputs.map (resolvePath (o.directory current))
  nodup : s.outputs.paths.Nodup
  base : s.baseDirectory = o.base (o.directory current) s.input
  libraries : libraries? (o.directory current) (o.expose.getD .always) (o.libraries.getD ∅) =
    .ok s.libraries
  overrides : s.overrides = (o.moduleOverrides.getD ∅).map (resolvePath (o.directory current))
  inlineSources : s.inlineSources = Assoc.ofList ((o.inlineSources.getD ∅).entries.map fun e =>
    (resolvePath (o.directory current) e.1, e.2))

theorem resolved_of_settings {o : Options} {current : String} {s : Settings}
    (h : o.settings current = .ok s) : Resolved o current s := by
  unfold settings at h
  dsimp only at h
  obtain ⟨libraries, hlibraries, h⟩ := exists_of_bind_eq_ok h
  cases hr : repeated? [] (o.outputs.map (PathForm.resolve (o.directory current))).paths with
  | some path =>
      rw [hr] at h
      cases h
  | none =>
      rw [hr] at h
      cases h
      have hshown : ∀ outputs : Outputs, outputs.map PathForm.shown = outputs := fun outputs => by
        change outputs.map id = outputs
        simp [Outputs.map]
      refine ⟨rfl, hshown _, ?_, rfl, hlibraries, rfl, rfl⟩
      rw [hshown]
      exact (repeated?_eq_none_iff.mp hr).1

/-- The inputs are seen from the working directory, and no two bundles go to one path. -/
theorem settings_eq_ok {o : Options} {current : String} {s : Settings}
    (h : o.settings current = .ok s) :
    s.input = (o.inputs.elim [] Inputs.patterns).map (resolvePath (o.directory current)) ∧
      s.outputs.paths.Nodup := by
  have hresolved := resolved_of_settings h
  exact ⟨hresolved.input, hresolved.nodup⟩

/-- Settings are legible when all the paths that they are made of are texts. -/
theorem isLegible_iff {π : Type} [PathForm π] [DecidableEq π] {o : Options π} {current : π}
    {s : Settings} (h : o.settings current = .ok s) :
    s.isLegible = true ↔
      ∀ p ∈ o.paths (o.directory current) s.input, PathForm.isText p = true := by
  unfold settings at h
  dsimp only at h
  obtain ⟨libraries, -, h⟩ := exists_of_bind_eq_ok h
  cases hr : repeated? [] (o.outputs.map (PathForm.resolve (o.directory current))).paths with
  | some path =>
      rw [hr] at h
      cases h
  | none =>
      rw [hr] at h
      cases h
      exact List.all_eq_true

theorem isLegible_of_settings {o : Options} {current : String} {s : Settings}
    (h : o.settings current = .ok s) : s.isLegible = true :=
  (isLegible_iff h).mpr fun _ _ => rfl

/-- Every bundle goes to a path that is seen from the working directory. -/
theorem exists_resolvePath_of_mem_paths {o : Options} {current : String} {s : Settings}
    (h : o.settings current = .ok s) {p : String} (hp : p ∈ s.outputs.paths) :
    ∃ q, resolvePath (o.directory current) q = p := by
  obtain ⟨t, ht⟩ := Outputs.mem_paths_iff.mp hp
  have hmap : (o.outputs.map (resolvePath (o.directory current))).path? t =
      (o.outputs.path? t).map (resolvePath (o.directory current)) := by
    cases t <;> rfl
  rw [(resolved_of_settings h).outputs, hmap] at ht
  obtain ⟨q, -, hq⟩ := Option.map_eq_some_iff.mp ht
  exact ⟨q, hq⟩

end Options

end DefineBundle
