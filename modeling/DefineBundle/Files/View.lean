/-!
# Files as a build sees them

A build asks a few things of the files as they stand, and writes whole files. What it asks is the
record `FileView`; a file system whose states are `σ` gives a view of each state and says what
writing does to it.
-/
namespace DefineBundle

/-- Why a file operation failed, with the causes behind it. -/
structure IoFault where
  text : String
  causes : List String
  deriving DecidableEq, Repr

/-- The content of a file, or nothing where its bytes are no text, and when it was last changed, in
milliseconds. -/
structure StoredFile where
  content : Option String
  modified : Nat
  deriving DecidableEq, Repr

/-- What can be asked of the files as they stand. -/
structure FileView where
  isFile : String → Bool
  read : String → Except IoFault String
  modified : String → Except IoFault Nat
  /-- The paths of all files below a directory; none when there is no such directory. -/
  walk : String → Except IoFault (List String)
  /-- At least the number of paths that lead to a file. -/
  capacity : Nat
  length_le_capacity : ∀ ps : List String, ps.Nodup → (∀ p ∈ ps, isFile p = true) →
    ps.length ≤ capacity

/-- A path leads to a file in both views or in neither, and to the same text. -/
structure FileView.SameText (view view' : FileView) (path : String) : Prop where
  isFile : view'.isFile path = view.isFile path
  read : view.isFile path = true → view'.read path = view.read path

namespace FileView.SameText

variable {view view' view'' : FileView} {path : String}

theorem refl (view : FileView) (path : String) : view.SameText view path :=
  ⟨rfl, fun _ => rfl⟩

theorem trans (h : view.SameText view' path) (h' : view'.SameText view'' path) :
    view.SameText view'' path :=
  ⟨h'.isFile.trans h.isFile, fun hf => (h'.read (h.isFile.trans hf)).trans (h.read hf)⟩

end FileView.SameText

/-- Files that can be looked at and written; `σ` holds their state. -/
structure FileSystem (σ : Type) where
  view : σ → FileView
  write : String → String → σ → Except IoFault Unit × σ

/-- A path leads to a file of its own: a file that is written there is there with its text, and
writing at another of the paths, whether it succeeds or not, leaves it as it is. -/
structure FileSystem.KeepsApart {σ : Type} (fs : FileSystem σ) (path : String)
    (paths : List String) : Prop where
  written : ∀ text files files', fs.write path text files = (.ok (), files') →
    (fs.view files').isFile path = true ∧ (fs.view files').read path = .ok text
  untouched : ∀ p ∈ paths, p ≠ path → ∀ text files,
    (fs.view files).SameText (fs.view (fs.write p text files).2) path

end DefineBundle
