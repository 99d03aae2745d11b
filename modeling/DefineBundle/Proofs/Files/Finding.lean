import DefineBundle.Files.Listing
import DefineBundle.Proofs.Files.Denotations
import Mathlib.Data.List.Infix

/-!
# Finding files by walking

What is expected of a walk: each file below the directory once, and nothing else. A list of files
whose paths are spelled in full meets this.
-/
namespace DefineBundle

open DefineBundle.Disk (IsName Spells pathOf)

theorem Disk.components_pathOf {l : Location} (h : ∀ name ∈ l, IsName name) :
    Path.components (pathOf l) = ⟨true, l.map String.toList⟩ := by
  have hproper : ∀ s ∈ l.map String.toList, Path.IsProper s := by
    intro s hs
    obtain ⟨name, hname, rfl⟩ := List.mem_map.mp hs
    exact (h name hname).proper
  rw [pathOf, Path.components_text hproper, if_neg (by simp)]

theorem Disk.isBelow_pathOf_iff {k l : Location} (hk : ∀ name ∈ k, IsName name)
    (hl : ∀ name ∈ l, IsName name) : Path.isBelow (pathOf k) (pathOf l) = true ↔ k <+: l := by
  rw [Path.isBelow, Disk.components_pathOf hk, Disk.components_pathOf hl]
  simp only [beq_self_eq_true, Bool.true_and, List.isPrefixOf_iff_prefix]
  exact List.prefix_map_iff_of_injective fun _ _ => String.toList_inj.mp

/-- The path of a location below a directory has a slash behind the path of the directory. -/
theorem Disk.exists_toList_pathOf {k rest : Location} (hk : k ≠ []) (hrest : rest ≠ []) :
    ∃ more, (pathOf (k ++ rest)).toList = (pathOf k).toList ++ '/' :: more := by
  refine ⟨Text.joinWith ['/'] (rest.map String.toList), ?_⟩
  rw [Disk.toList_pathOf, Disk.toList_pathOf, List.map_append,
    Text.joinWith_append (by simpa using hk) (by simpa using hrest)]
  rfl

theorem Disk.toList_pathOf_prefix (k rest : Location) :
    (pathOf k).toList <+: (pathOf (k ++ rest)).toList := by
  by_cases hk : k = []
  · exact ⟨_, by rw [hk, Disk.toList_pathOf, Disk.toList_pathOf]; rfl⟩
  · by_cases hrest : rest = []
    · rw [hrest, List.append_nil]
    · obtain ⟨more, hmore⟩ := Disk.exists_toList_pathOf hk hrest
      exact ⟨_, hmore.symm⟩

/-- A walk finds each file below the directory once, under the path that spells it. A file in the
place of the directory may be found or not, unless this is the root, which everything is below. -/
structure FileView.FindsFiles (view : FileView) : Prop where
  nodup : ∀ {directory found}, Spells directory → view.walk directory = .ok found → found.Nodup
  mem_iff : ∀ {directory found p}, Spells directory → view.walk directory = .ok found →
    p ≠ directory ∨ directory = "/" →
      (p ∈ found ↔ Spells p ∧ view.isFile p = true ∧ Path.isBelow directory p = true)

namespace FileView.FindsFiles

variable {view : FileView} {directory : String} {found : List String}

theorem spells (h : view.FindsFiles) (hdirectory : Spells directory)
    (hfound : view.walk directory = .ok found) {p : String} (hp : p ∈ found) : Spells p := by
  by_cases hp' : p = directory
  · exact hp' ▸ hdirectory
  · exact ((h.mem_iff hdirectory hfound (.inl hp')).mp hp).1

theorem map_normalize (h : view.FindsFiles) (hdirectory : Spells directory)
    (hfound : view.walk directory = .ok found) : found.map Path.normalize = found :=
  (List.map_congr_left fun _ hp => (h.spells hdirectory hfound hp).normalize_eq).trans
    (List.map_id found)

end FileView.FindsFiles

theorem Listing.findsFiles {files : Listing} (h : ∀ e ∈ files.entries, Spells e.1) :
    files.view.FindsFiles where
  nodup _ hfound := by
    obtain rfl := Except.ok.inj hfound
    exact files.nodup.filter _
  mem_iff {directory found p} _ hfound _ := by
    obtain rfl := Except.ok.inj hfound
    have hfile : files.view.isFile p = true ↔ p ∈ files.entries.map Prod.fst :=
      Assoc.contains_iff
    rw [Listing.below, List.mem_filter, hfile]
    constructor
    · rintro ⟨hmem, hbelow⟩
      obtain ⟨e, he, rfl⟩ := List.mem_map.mp hmem
      exact ⟨h e he, hmem, hbelow⟩
    · rintro ⟨-, hmem, hbelow⟩
      exact ⟨hmem, hbelow⟩

end DefineBundle
