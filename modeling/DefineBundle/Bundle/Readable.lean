import DefineBundle.Bundle.Content
import DefineBundle.Bundle.Loader
import DefineBundle.Bundle.Tools
import DefineBundle.Failure

/-!
# Readable bundles

Every file as it is, under a line that names it and followed by the global names of its modules,
inside the loader. The source bundle is this; the coverage bundle is the same with every source
instrumented.
-/
namespace DefineBundle.Bundle

open DefineBundle.Text

/-- The failure of a template that has no place for code. -/
def noPlace (name : String) : Failure :=
  .of (.badTemplate name ("no \x60" ++ Loader.codeMarker ++ "();\x60 statement found"))

/-- What has found its place in a template, or the failure of a template without one. -/
def placed {α : Type} (name : String) : Option α → Except Failure α
  | some x => .ok x
  | none => .error (noPlace name)

theorem placed_eq_ok_iff {α : Type} {name : String} {x : Option α} {a : α} :
    placed name x = .ok a ↔ x = some a := by
  cases x <;> simp [placed]

theorem placed_eq_error_iff {α : Type} {name : String} {x : Option α} {f : Failure} :
    placed name x = .error f ↔ x = none ∧ f = noPlace name := by
  cases x <;> simp [placed, eq_comm]

/-- The global names of the modules of a file, a line for each. -/
def aliasLines (f : BundleFile) : List Char :=
  f.members.flatMap fun m => match m.globalName with
    | some g => '\n' :: aliasStatement m.record.id g
    | none => []

def fileSection (f : BundleFile) (source : String) : List Char :=
  "// Included from: ".toList ++ f.path.toList ++ ['\n', '\n'] ++ trim source.toList ++ aliasLines f

/-- The source of a file as an instrumenter leaves it, if there is one. -/
def instrumented (instrument : Option Instrumenter) (f : BundleFile) : Except Failure String :=
  match instrument with
  | none => .ok f.source
  | some i => match i f.path f.source with
    | .ok source => .ok source
    | .error e => .error ⟨[⟨["Failed to instrument " ++ f.path], .other e⟩]⟩

/-- The sections of a bundle: its files, and the call that publishes modules. -/
def sections (instrument : Option Instrumenter) (s : Settings) (ms : List ModuleRecord) :
    Except Failure (List (List Char)) := do
  let written ← (files (members s.globalModules ms)).mapM fun f => do
    return fileSection f (← instrumented instrument f)
  return written ++ if (exposedIds ms).isEmpty then [] else [exposeCall (exposedIds ms)]

def readable (instrument : Option Instrumenter) (s : Settings) (ms : List ModuleRecord) :
    Except Failure String := do
  let code := joinWith ['\n', '\n'] (← sections instrument s ms)
  let bundle ← placed "inline loader" (Loader.insertCode? Loader.inlineText (['\n', '\n'] ++ code))
  return withBanner s bundle

end DefineBundle.Bundle
