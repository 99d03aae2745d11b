import DefineBundle.Text.Search

/-!
# Version placeholders

A source may hold placeholders for the version, its major and minor part, and the release date.
Those that have a value are replaced one after the other; the others are left as they are.
-/
namespace DefineBundle.Text

/-- The values of the placeholders. -/
structure VersionTokens where
  version : Option String
  releaseDate : Option String
  deriving DecidableEq, Repr

namespace VersionTokens

def major? (t : VersionTokens) : Option String :=
  t.version.map fun v => match splitFirst? ['.'] v.toList with
    | some (before, _) => String.ofList before
    | none => v

/-- The version after its first dot, empty when there is none. -/
def minor? (t : VersionTokens) : Option String :=
  t.version.map fun v => match splitFirst? ['.'] v.toList with
    | some (_, rest) => String.ofList rest
    | none => ""

/-- The placeholders with their values, in the order in which they are replaced. -/
def placeholders (t : VersionTokens) : List (String × Option String) :=
  [("@@version@@", t.version), ("@@majorVersion@@", t.major?), ("@@minorVersion@@", t.minor?),
    ("@@releaseDate@@", t.releaseDate)]

/-- The characters with one placeholder replaced, if it has a value. -/
def replaceOne (cs : List Char) (p : String × Option String) : List Char :=
  match p.2 with
  | some value => replaceAll p.1.toList value.toList cs
  | none => cs

/-- The source with the placeholders replaced. -/
def substitute (t : VersionTokens) (source : String) : String :=
  String.ofList (t.placeholders.foldl replaceOne source.toList)

end VersionTokens

end DefineBundle.Text
