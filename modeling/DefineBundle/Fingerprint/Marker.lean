import DefineBundle.Files.View
import DefineBundle.Options.Settings
import DefineBundle.Text.Blank

/-!
# Fingerprints in bundles

The development bundle may end in a comment with the fingerprint of its build. A later build reads
it back to see whether there is anything to do.
-/
namespace DefineBundle.Fingerprint

open DefineBundle.Text

def marker : List Char :=
  ['/', '/', ' ', '$', 'h', 'a', 's', 'h', ':', ' ']

def isHexDigit (c : Char) : Bool :=
  c.isDigit || ('a' ≤ c && c ≤ 'f') || ('A' ≤ c && c ≤ 'F')

def read? (content : List Char) : Option (List Char) :=
  match splitLast? marker (trimEnd content) with
  | some (_, digits) => if !digits.isEmpty && digits.all isHexDigit then some digits else none
  | none => none

/-- The line that carries a fingerprint. -/
def write (fingerprint : String) : String :=
  String.ofList marker ++ fingerprint ++ "\n"

/-- The fingerprint in the development bundle that is on disk. -/
def previous? (view : FileView) (s : Settings) : Option String :=
  match s.outputs.development with
  | none => none
  | some path =>
      if view.isFile path then
        match view.read path with
        | .ok content => (read? content.toList).map String.ofList
        | .error _ => none
      else none

/-- Whether the bundles have to be made. -/
def isStale (view : FileView) (s : Settings) (fingerprint : String) : Bool :=
  s.force || previous? view s != some fingerprint

end DefineBundle.Fingerprint
