import DefineBundle.Path.Glob
import DefineBundle.Path.Glob.Match
import DefineBundle.Discovery.Load

/-!
# Discovery from the entries

The inputs of a build are paths, taken as they are, and patterns, which stand for the files that
match them, in order. Discovery loads them one after the other; that no file nests deeper than
there are files bounds the walk.
-/
namespace DefineBundle.Discovery

open DefineBundle.Path (Glob.isPattern Glob.staticBase Glob.matchesPath)

/-- The files of a list that match a pattern, sorted. -/
def matching (pattern : String) (files : List String) : List String :=
  ((files.map Path.normalize).filter (Glob.matchesPath pattern)).mergeSort fun p q => p ≤ q

def expand (view : FileView) (d : Discovery) (input : String) :
    Except (Halted Discovery) (List String × Discovery) :=
  if Glob.isPattern input.toList then
    let base := Glob.staticBase input
    match view.walk base with
    | .error e => d.halt (.inaccessible base e)
    | .ok files => match matching input files with
      | [] => .ok ([], d.say .debug ("Pattern " ++ input ++ " matched no files"))
      | found => .ok (found, d)
  else .ok ([input], d)

def expandAll (view : FileView) : List String → Discovery →
    Except (Halted Discovery) (List String × Discovery)
  | [], d => .ok ([], d)
  | input :: inputs, d => do
      let (found, d) ← expand view d input
      let (rest, d) ← expandAll view inputs d
      return (found ++ rest, d)

/-- More than the number of files that can be inside each other while they are loaded. -/
def depth (view : FileView) (s : Settings) : Nat :=
  view.capacity + s.inlineSources.entries.length + 1

/-- Everything that the inputs of a build lead to; there must be a module. -/
def run (view : FileView) (s : Settings) (cache : FileCache) :
    Except (Halted Discovery) Discovery := do
  let (entries, d) ← expandAll view s.input (start cache)
  let d ← entries.foldlM (fun d path => loadFile view s (depth view s) path none d) d
  if d.modules.isEmpty then d.halt .nothingDiscovered else return d

end DefineBundle.Discovery
