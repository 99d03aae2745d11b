import DefineBundle.Proofs.Options.Settings
import DefineBundle.Proofs.Path.NativePaths

/-!
# Settings with paths of the system

Where all paths of the settings are texts, options with paths of the system come to the same
settings as options with texts. So what holds of settings that are made from texts holds of all
settings that a fingerprint can be taken of.
-/
namespace DefineBundle

variable {π ρ : Type}

namespace Outputs

theorem paths_map (f : π → ρ) (o : Outputs π) : (o.map f).paths = o.paths.map f := by
  have hpath : (o.map f).path? = fun t => (o.path? t).map f := by
    funext t
    cases t <;> rfl
  rw [paths, paths, hpath, List.map_filterMap]

theorem map_congr {f g : π → ρ} {o : Outputs π} (h : ∀ p ∈ o.paths, f p = g p) :
    o.map f = o.map g := by
  have hpath : ∀ t, (o.path? t).map f = (o.path? t).map g := fun t =>
    Option.map_congr fun p hp => h p (mem_paths_iff.mpr ⟨t, hp⟩)
  simp only [map, mk.injEq]
  exact ⟨hpath .source, hpath .minified, hpath .development, hpath .coverage⟩

theorem map_map {σ : Type} (f : π → ρ) (g : ρ → σ) (o : Outputs π) :
    (o.map f).map g = o.map fun p => g (f p) := by
  simp [map, Function.comp_def]

theorem map_id (o : Outputs π) : o.map id = o := by
  simp [map]

end Outputs

namespace Assoc

variable {α β γ : Type}

theorem map_congr {f g : α → β} {m : Assoc α} (h : ∀ e ∈ m.entries, f e.2 = g e.2) :
    m.map f = m.map g := by
  have hentries : (m.map f).entries = (m.map g).entries :=
    List.map_congr_left fun e he => by rw [h e he]
  simp only [Assoc.map] at hentries ⊢
  simp only [hentries]

theorem map_map (f : α → β) (g : β → γ) (m : Assoc α) :
    (m.map f).map g = m.map fun a => g (f a) := by
  simp [Assoc.map]

theorem map_id (m : Assoc α) : m.map id = m := by
  simp [Assoc.map]

theorem contains_map (f : α → β) (m : Assoc α) (key : String) :
    (m.map f).contains key = m.contains key := by
  rw [contains, contains, get?_map, Option.isSome_map]

end Assoc

def LibraryOptions.map (f : π → ρ) (l : LibraryOptions π) : LibraryOptions ρ :=
  { l with baseDirectory := f l.baseDirectory }

namespace Options

open PathForm (ofText shown resolve isText)

/-- The options with each path spelled in another way, to be seen from another working directory. -/
def respell (f : π → ρ) (workingDirectory : Option ρ) (o : Options π) : Options ρ :=
  { o with
    workingDirectory
    baseDirectory := o.baseDirectory.map f
    libraries := o.libraries.map fun ls => ls.map (LibraryOptions.map f)
    outputs := o.outputs.map f }

/-- The paths of options that are seen from the working directory. -/
def places (o : Options π) : List π :=
  o.baseDirectory.toList ++ o.outputs.paths ++
    (o.libraries.getD ∅).entries.map fun e => e.2.baseDirectory

theorem places_respell (f : π → ρ) (w : Option ρ) (o : Options π) :
    (o.respell f w).places = o.places.map f := by
  have hlibraries : ((o.respell f w).libraries.getD ∅).entries.map (fun e => e.2.baseDirectory) =
      (o.libraries.getD ∅).entries.map fun e => f e.2.baseDirectory := by
    unfold respell
    cases o.libraries with
    | none => rfl
    | some ls => exact List.map_map
  rw [places, hlibraries]
  simp [places, respell, Outputs.paths_map, Option.toList_map]

theorem repeated?_map {f : π → ρ} [DecidableEq π] [DecidableEq ρ] (hf : ∀ p q, f p = f q → p = q)
    (seen ps : List π) :
    repeated? (seen.map f) (ps.map f) = (repeated? seen ps).map f := by
  induction ps generalizing seen with
  | nil => rfl
  | cons p ps ih =>
      have hseen : (seen.map f).contains (f p) = seen.contains p := by
        rw [Bool.eq_iff_iff, List.contains_iff_mem, List.contains_iff_mem, List.mem_map]
        constructor
        · rintro ⟨q, hq, he⟩
          exact hf q p he ▸ hq
        · intro hp
          exact ⟨p, hp, rfl⟩
      rw [List.map_cons, repeated?, repeated?, hseen]
      split
      · rfl
      · exact ih (p :: seen)

theorem shown_resolveText (directory text : String) :
    shown (resolveText (ofText directory : NativePath) text) = resolvePath directory text := by
  rw [resolveText, NativePath.resolve_ofText, NativePath.shown_ofText]

theorem outputs_shown_ofText (o : Outputs) :
    (o.map (ofText : String → NativePath)).map shown = o := by
  rw [Outputs.map_map, funext (g := id) NativePath.shown_ofText]
  exact Outputs.map_id o

section
variable {o : Options NativePath} {f : NativePath → String} {directory : String}
  (h : ∀ p ∈ o.places, resolve (ofText directory) p = ofText (resolvePath directory (f p)))

include h

theorem libraries?_respell (w : Option String) (expose : Expose) :
    libraries? (ofText directory) expose (o.libraries.getD ∅) =
      libraries? directory expose ((o.respell f w).libraries.getD ∅) := by
  have hmap : (o.respell f w).libraries.getD ∅ =
      (o.libraries.getD ∅).map (LibraryOptions.map f) := by
    unfold respell
    cases o.libraries <;> rfl
  rw [hmap, libraries?, libraries?, Assoc.contains_map, Assoc.map_map]
  split
  · rfl
  · refine congrArg Except.ok (Assoc.map_congr fun e he => ?_)
    rw [h _ (List.mem_append_right _ (List.mem_map_of_mem he)), NativePath.shown_ofText]
    rfl

theorem base_respell (w : Option String) (input : List String) :
    o.base (ofText directory) input = ofText ((o.respell f w).base directory input) := by
  have hnone : ∀ ps : List String, ps.head?.elim (ofText directory : NativePath)
      (fun p => ofText (Path.Glob.entryDirectory p)) =
        ofText (ps.head?.elim directory Path.Glob.entryDirectory) := fun ps => by cases ps <;> rfl
  unfold Options.base respell
  cases hbase : o.baseDirectory with
  | some b => exact h b (by simp [places, hbase])
  | none => exact hnone input

theorem outputs_respell (w : Option String) :
    o.outputs.map (resolve (ofText directory)) =
      ((o.respell f w).outputs.map (resolve directory)).map ofText := by
  refine Eq.trans (Outputs.map_congr fun p hp => h p (by simp [places, hp])) ?_
  change _ = ((o.outputs.map f).map _).map _
  rw [Outputs.map_map, Outputs.map_map]
  rfl

theorem isText_of_mem_paths {input : List String} {p : NativePath}
    (hp : p ∈ o.paths (ofText directory) input) : isText p = true := by
  suffices ∃ text, ofText text = p by
    obtain ⟨text, rfl⟩ := this
    exact NativePath.isText_ofText text
  simp only [paths, List.mem_append, List.mem_cons] at hp
  rcases hp with ((rfl | rfl | hp) | hp) | hp
  · exact ⟨directory, rfl⟩
  · exact ⟨_, (base_respell h none input).symm⟩
  · rw [outputs_respell h none, Outputs.paths_map] at hp
    obtain ⟨text, -, he⟩ := List.mem_map.mp hp
    exact ⟨text, he⟩
  · obtain ⟨e, he, rfl⟩ := List.mem_map.mp hp
    exact ⟨_, (h _ (List.mem_append_right _ (List.mem_map_of_mem he))).symm⟩
  · obtain ⟨e, -, rfl⟩ := List.mem_map.mp hp
    exact ⟨_, (NativePath.resolve_ofText directory e.2).symm⟩

theorem all_isText_respell (w : Option String) (input : List String) :
    (o.paths (ofText directory) input).all isText =
      ((o.respell f w).paths directory input).all isText :=
  (List.all_eq_true.mpr fun _ => isText_of_mem_paths h).trans
    (List.all_eq_true.mpr fun _ _ => rfl).symm

/-- Options with paths of the system come to the same settings as options with texts that lead to
the same places. -/
theorem settings_respell {current : NativePath} {current' : String} {w : Option String}
    (hdirectory : o.directory current = ofText directory)
    (hdirectory' : (o.respell f w).directory current' = directory) :
    o.settings current = (o.respell f w).settings current' := by
  have hrepeated : ∀ ps : List String, repeated? [] (ps.map (ofText : String → NativePath)) =
      (repeated? [] ps).map ofText :=
    repeated?_map (fun _ _ => NativePath.ofText_injective) []
  have hoptions : (o.respell f w).expose = o.expose := rfl
  unfold settings
  rw [hdirectory, hdirectory']
  dsimp only
  rw [libraries?_respell h w, outputs_respell h w, Outputs.paths_map, hrepeated, hoptions]
  cases libraries? directory (o.expose.getD .always) ((o.respell f w).libraries.getD ∅) with
  | error e => rfl
  | ok libraries =>
      dsimp only [bind, Except.bind]
      cases repeated? [] ((o.respell f w).outputs.map (resolve directory)).paths with
      | some path =>
          exact congrArg (fun p => Except.error (InvalidOptions.repeatedOutput p))
            (NativePath.shown_ofText path)
      | none =>
          have hshown : ((o.respell f w).outputs.map (resolve directory)).map shown =
              (o.respell f w).outputs.map (resolve directory) := Outputs.map_id _
          dsimp only [Option.map]
          simp only [shown_resolveText, base_respell h w, NativePath.shown_ofText,
            outputs_shown_ofText, all_isText_respell h w, hshown]
          rfl

end

/-- Options whose paths are paths of the system, each of them a text. -/
def native (o : Options) : Options NativePath :=
  o.respell ofText (o.workingDirectory.map ofText)

theorem native_respell (o : Options) : o.native.respell shown o.workingDirectory = o := by
  have hbase : (o.baseDirectory.map (ofText : String → NativePath)).map shown =
      o.baseDirectory := by
    simp [Function.comp_def, NativePath.shown_ofText]
  have hlibraries : (o.libraries.map fun ls =>
        ls.map (LibraryOptions.map (ofText : String → NativePath))).map
      (fun ls => ls.map (LibraryOptions.map shown)) = o.libraries := by
    cases o.libraries with
    | none => rfl
    | some ls =>
        refine congrArg some ((Assoc.map_map _ _ ls).trans ?_)
        refine (Assoc.map_congr fun e _ => ?_).trans (Assoc.map_id ls)
        exact congrArg (fun p => { e.2 with baseDirectory := p }) (NativePath.shown_ofText _)
  unfold native respell
  dsimp only
  rw [hbase, outputs_shown_ofText, hlibraries]

/-- Texts come to the same settings whether they are taken for paths of the system or not. -/
theorem settings_native (o : Options) (current : String) :
    o.native.settings (ofText current) = o.settings current := by
  have hdirectory : o.native.directory (ofText current) = ofText (o.directory current) := by
    unfold directory native respell
    cases hw : o.workingDirectory with
    | none => rfl
    | some w => exact NativePath.resolve_ofText current w
  have hplaces : ∀ p ∈ o.native.places, ∃ text, ofText text = p := by
    intro p hp
    rw [native, places_respell] at hp
    obtain ⟨text, -, he⟩ := List.mem_map.mp hp
    exact ⟨text, he⟩
  refine (settings_respell (f := shown) (w := o.workingDirectory) (fun p hp => ?_) hdirectory
    (by rw [native_respell])).trans (congrArg (settings current) o.native_respell)
  obtain ⟨text, rfl⟩ := hplaces p hp
  rw [NativePath.shown_ofText]
  exact NativePath.resolve_ofText _ text

/-- Settings with no path but texts are settings of options with texts. -/
theorem exists_settings_of_isLegible {o : Options NativePath} {current : NativePath} {s : Settings}
    (h : o.settings current = .ok s) (hlegible : s.isLegible = true)
    (habsolute : Path.isAbsolute (o.directory current).spelled = true) :
    ∃ (o' : Options) (current' : String), o'.settings current' = .ok s ∧
      Path.isAbsolute (o'.directory current') = true := by
  have htext := (isLegible_iff h).mp hlegible
  obtain ⟨directory, hdirectory⟩ : ∃ directory, ofText directory = o.directory current :=
    ⟨_, NativePath.ofText_shown (htext _ List.mem_cons_self)⟩
  rw [← hdirectory, NativePath.isAbsolute_spelled] at habsolute
  have hplaces : ∀ p ∈ o.places, isText (resolve (o.directory current) p) = true := by
    intro p hp
    refine htext _ ?_
    simp only [places, List.mem_append, Option.mem_toList] at hp
    rcases hp with (hp | hp) | hp
    · have hbase : o.base (o.directory current) s.input = resolve (o.directory current) p := by
        rw [base, hp]
      exact hbase ▸ by simp [paths]
    · simp only [paths, Outputs.paths_map, List.mem_append, List.mem_cons, List.mem_map]
      exact .inl (.inl (.inr (.inr ⟨p, hp, rfl⟩)))
    · obtain ⟨e, he, rfl⟩ := List.mem_map.mp hp
      simp only [paths, List.mem_append, List.mem_map]
      exact .inl (.inr ⟨e, he, rfl⟩)
  refine ⟨o.respell (fun p => shown (resolve (ofText directory) p)) none, directory, ?_, habsolute⟩
  rw [← h]
  refine (settings_respell (fun p hp => ?_) hdirectory.symm rfl).symm
  have hp := hplaces p hp
  rw [← hdirectory] at hp
  rw [NativePath.resolvePath_shown habsolute hp, NativePath.ofText_shown hp]

end Options

end DefineBundle
