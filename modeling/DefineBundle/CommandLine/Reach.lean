import DefineBundle.CommandLine.Run

/-!
# Reach

Where on a disk a run can look or write. Modules lie below the base directories or at paths that the
settings name; bundles are read back and written at their own paths. A front end that prepares the
files for a run prepares these.
-/
namespace DefineBundle.CommandLine

open DefineBundle.Path (Glob.isPattern Glob.staticBase)

/-- Directories with everything below them, and single paths. -/
structure Reach where
  trees : List String
  paths : List String
  deriving DecidableEq, Repr

/-- Where a run with the given settings can look or write. -/
def Reach.of (s : Settings) : Reach where
  trees := s.baseDirectory :: s.libraries.values.map Library.baseDirectory ++
    (s.input.filter fun p => Glob.isPattern p.toList).map Glob.staticBase
  paths := (s.input.filter fun p => !Glob.isPattern p.toList) ++ s.overrides.values ++
    s.outputs.paths

/-- Where a run with the given arguments can look or write: nowhere if they are refused. -/
def reach (view : FileView) (current : String) (a : Arguments) : Reach :=
  match optionsOf view a with
  | .error _ => ⟨[], []⟩
  | .ok o => match o.settings current with
    | .error _ => ⟨[], []⟩
    | .ok s => .of s

end DefineBundle.CommandLine
