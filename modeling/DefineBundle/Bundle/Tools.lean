import DefineBundle.Script.Print
import DefineBundle.Options.Basic

/-!
# Tools of a build

What a build leaves to others: the instrumenting of sources for coverage, which there may be no
tool for and which may fail, and the printing of a script whose code is to be changed to make it
small. A build calls them as functions, so equal inputs give equal results.
-/
namespace DefineBundle

/-- Changes the source of the file at a path so that it records coverage; or says why it does
not. -/
abbrev Instrumenter := (path source : String) → Except String String

/-- What a build leaves to others. -/
structure Tools where
  instrument : Option Instrumenter
  /-- Prints a script after changing its code. -/
  shrink : Compression → Script.Tree → String

namespace Tools

/-- No tools at all, for builds that ask for none: nothing is instrumented, and a script is printed
with its code as it stands. -/
def standard : Tools :=
  ⟨none, fun _ => Script.print .compact⟩

end Tools

end DefineBundle
