import DefineBundle.Bundle.Development
import DefineBundle.Bundle.Minified
import DefineBundle.Report

/-!
# Making the bundles

The bundles that the settings ask for, one after the other. A coverage bundle without an
instrumenter is left out with a warning; any failure ends the making.
-/
namespace DefineBundle

structure Asset where
  target : Target
  path : String
  content : String
  deriving DecidableEq, Repr

namespace Bundle

structure Generation where
  assets : List Asset
  warnings : List Warning
  log : List Message
  deriving DecidableEq, Repr

/-- What bundles are made from. -/
structure Material where
  tools : Tools
  settings : Settings
  modules : List ModuleRecord
  fingerprint : String

/-- The text of a bundle; none when it is to be left out. -/
def content (m : Material) (path : String) : Target → Except Failure (Option String)
  | .source => some <$> readable none m.settings m.modules
  | .minified => some <$> minified m.tools m.settings m.modules
  | .development => some <$> development m.settings m.modules m.fingerprint path
  | .coverage => match m.tools.instrument with
    | some i => some <$> readable (some i) m.settings m.modules
    | none => .ok none

namespace Generation

def empty : Generation :=
  ⟨[], [], []⟩

def skip (g : Generation) (path : String) : Generation :=
  let w := Warning.missingInstrumenter path
  { g with warnings := g.warnings ++ [w], log := g.log ++ [⟨.warn, w.text⟩] }

def add (g : Generation) (a : Asset) : Generation :=
  { g with
    assets := g.assets ++ [a]
    log := g.log ++ [⟨.debug, "Generated " ++ a.target.word ++ " bundle for " ++ a.path⟩] }

/-- The bundle of a target is made if the settings ask for it. -/
def step (m : Material) (g : Generation) (t : Target) : Except (Halted Generation) Generation :=
  match m.settings.outputs.path? t with
  | none => .ok g
  | some path => match content m path t with
    | .error e => .error ⟨e, g⟩
    | .ok none => .ok (g.skip path)
    | .ok (some text) => .ok (g.add ⟨t, path, text⟩)

end Generation

/-- All bundles that the settings ask for. -/
def generate (m : Material) : Except (Halted Generation) Generation :=
  Target.all.foldlM (Generation.step m) Generation.empty

end Bundle

end DefineBundle
