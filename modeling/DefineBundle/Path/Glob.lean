import DefineBundle.Path.Basic

/-!
# Path patterns

What the spelling of a pattern says about the paths that it matches: whether a text is a pattern at
all, and the directory that all its matches lie in.
-/
namespace DefineBundle.Path.Glob

open DefineBundle.Text

/-- Whether a text has any of the characters that make it a pattern. -/
def isPattern (cs : List Char) : Bool :=
  cs.any fun c => c == '*' || c == '?' || c == '[' || c == '{'

/-- A directory with the segments before the first pattern segment pushed onto it. The last
segment is never pushed. -/
def pushStatic : String → List (List Char) → String
  | base, s :: next :: rest =>
      if isPattern s then base
      else if s.isEmpty && base.isEmpty then pushStatic "/" (next :: rest)
      else pushStatic (join base (String.ofList s)) (next :: rest)
  | base, _ => base

/-- The directory that all matches of a pattern lie in: its leading segments without pattern
syntax. -/
def staticBase (pattern : String) : String :=
  pushStatic "" (splitOn '/' pattern.toList)

/-- The directory of an entry: of a plain path its parent, of a pattern its static base. -/
def entryDirectory (pattern : String) : String :=
  if isPattern pattern.toList then staticBase pattern else parent pattern

end DefineBundle.Path.Glob
