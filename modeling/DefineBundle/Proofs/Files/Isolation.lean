import DefineBundle.Proofs.Discovery.Repeatable

/-!
# Files of their own

Where an output leads to a file of its own, writing it changes nothing that a build asks for under
any other path: neither another file nor, but for the output itself, what is found below a
directory. Links take this away, for then two paths can lead to one file.
-/
namespace DefineBundle

variable {σ : Type}

namespace FileSystem

/-- The states that are reached by writing at some of the paths. -/
inductive Wrote (fs : FileSystem σ) (paths : List String) (start : σ) : σ → Prop
  | refl : Wrote fs paths start start
  | write {p text : String} {files files' : σ} (before : Wrote fs paths start files)
      (mem : p ∈ paths) (success : fs.write p text files = (.ok (), files')) :
      Wrote fs paths start files'

/-- While files are written at some of the paths, no two of them lead to one file. -/
structure Separates (fs : FileSystem σ) (paths : List String) (start : σ) : Prop where
  written : ∀ {files files' : σ} {p text : String}, fs.Wrote paths start files → p ∈ paths →
    fs.write p text files = (.ok (), files') →
      (fs.view files').isFile p = true ∧ (fs.view files').read p = .ok text
  untouched : ∀ {files files' : σ} {p text : String}, fs.Wrote paths start files → p ∈ paths →
    fs.write p text files = (.ok (), files') →
      ∀ q ∈ paths, q ≠ p → (fs.view files).SameText (fs.view files') q

/-- The files of a walk, by their normal forms, but for the one at a path. -/
def others (path : String) (found : List String) : List String :=
  (found.map Path.normalize).filter (· ≠ path)

/-- While outputs are written, they lead neither to one file nor to one of those asked for, and the
walks of the input patterns find what they found before, but for the outputs themselves. -/
structure Isolates (fs : FileSystem σ) (s : Settings) (asked : List String) (start : σ) : Prop
    extends fs.Separates s.outputs.paths start where
  sameAt : ∀ {files files' : σ} {p text : String}, fs.Wrote s.outputs.paths start files →
    p ∈ s.outputs.paths → fs.write p text files = (.ok (), files') →
      ∀ q ∈ asked, q ≠ p → Discovery.SameAt (fs.view files) (fs.view files') q
  walked : ∀ {files files' : σ} {p text : String}, fs.Wrote s.outputs.paths start files →
    p ∈ s.outputs.paths → fs.write p text files = (.ok (), files') →
      ∀ input ∈ s.input, Path.Glob.isPattern input.toList = true → ∀ found,
        (fs.view files).walk (Path.Glob.staticBase input) = .ok found →
          ∃ found', (fs.view files').walk (Path.Glob.staticBase input) = .ok found' ∧
            (others p found').Perm (others p found)

end FileSystem

open FileSystem (others)

namespace Discovery

theorem SameAt.refl (view : FileView) (path : String) : SameAt view view path :=
  ⟨.refl view path, fun _ => rfl⟩

theorem SameAt.trans {view view' view'' : FileView} {path : String} (h : SameAt view view' path)
    (h' : SameAt view' view'' path) : SameAt view view'' path :=
  ⟨h.toSameText.trans h'.toSameText,
    fun hf => (h'.modified (h.isFile.trans hf)).trans (h.modified hf)⟩

theorem pairwise_mergeSort (ps : List String) :
    (ps.mergeSort fun p q => p ≤ q).Pairwise fun p q => p ≤ q := by
  have hsorted : (ps.mergeSort fun p q => p ≤ q).Pairwise fun p q => decide (p ≤ q) = true := by
    refine List.pairwise_mergeSort (fun a b c hab hbc => ?_) (fun a b => ?_) ps
    · exact decide_eq_true (String.le_trans (of_decide_eq_true hab) (of_decide_eq_true hbc))
    · simpa using String.le_total a b
  exact hsorted.imp of_decide_eq_true

theorem mergeSort_eq_of_perm {ps qs : List String} (h : ps.Perm qs) :
    ps.mergeSort (fun p q => p ≤ q) = qs.mergeSort fun p q => p ≤ q := by
  refine List.Perm.eq_of_pairwise (fun a b _ _ hab hba => String.le_antisymm hab hba)
    (pairwise_mergeSort ps) (pairwise_mergeSort qs) ?_
  exact (List.mergeSort_perm ps _).trans (h.trans (List.mergeSort_perm qs _).symm)

/-- The files that match a pattern are among the others when the pattern does not match a path. -/
theorem matching_eq_of_others {pattern path : String} {found found' : List String}
    (hno : Path.Glob.matchesPath pattern path = false)
    (h : (others path found').Perm (others path found)) :
    matching pattern found' = matching pattern found := by
  have hamong : ∀ files : List String,
      (files.map Path.normalize).filter (Path.Glob.matchesPath pattern) =
        (others path files).filter (Path.Glob.matchesPath pattern) := by
    intro files
    rw [others, List.filter_filter]
    refine List.filter_congr fun p _ => ?_
    by_cases hp : p = path
    · simp [hp, hno]
    · simp [hp]
  unfold matching
  rw [hamong, hamong]
  exact mergeSort_eq_of_perm (h.filter _)

/-- No input pattern matches a path. -/
def Unmatched (s : Settings) (path : String) : Prop :=
  ∀ input ∈ s.input, Path.Glob.isPattern input.toList = true →
    Path.Glob.matchesPath input path = false

end Discovery

/-- An output that no pattern matches is written without a change of the entries. -/
theorem FileSystem.Isolates.entriesOf {fs : FileSystem σ} {s : Settings} {asked : List String}
    {start files files' : σ} {p text : String} (h : fs.Isolates s asked start)
    (hat : fs.Wrote s.outputs.paths start files) (hp : p ∈ s.outputs.paths)
    (hw : fs.write p text files = (.ok (), files')) (hno : Discovery.Unmatched s p)
    {input : String} (hinput : input ∈ s.input) {es : List String}
    (hes : Discovery.entriesOf (fs.view files) input = .ok es) :
    Discovery.entriesOf (fs.view files') input = .ok es := by
  unfold Discovery.entriesOf at *
  by_cases hpattern : Path.Glob.isPattern input.toList = true
  · rw [if_pos hpattern] at hes ⊢
    cases hwalk : (fs.view files).walk (Path.Glob.staticBase input) with
    | error e =>
        rw [hwalk] at hes
        cases hes
    | ok found =>
        rw [hwalk] at hes
        cases hes
        obtain ⟨found', hwalk', hperm⟩ := h.walked hat hp hw input hinput hpattern found hwalk
        rw [hwalk']
        exact congrArg _ (Discovery.matching_eq_of_others (hno input hinput hpattern) hperm)
  · rw [if_neg hpattern] at hes ⊢
    exact hes

end DefineBundle
