import DefineBundle.Discovery.Basic
import DefineBundle.Script.Parse
import DefineBundle.Text.VersionTokens

/-!
# Sources

The text behind a path: a file on disk goes before an inline source. The modules that a text
declares are read from it after its placeholders have been replaced.
-/
namespace DefineBundle

structure SourceText where
  text : String
  isVirtual : Bool
  modified : Nat
  deriving DecidableEq, Repr

namespace SourceText

/-- The text behind a path, if there is one, and the cache after it was looked for. -/
def find (view : FileView) (inlineSources : Assoc String) (path : String) (cache : FileCache) :
    Except BuildFault (Option SourceText) × FileCache :=
  if view.isFile path then
    match cache.read view path with
    | (.error e, cache) => (.error (.inaccessible path e), cache)
    | (.ok text, cache) => match view.modified path with
      | .error e => (.error (.inaccessible path e), cache)
      | .ok modified => (.ok (some ⟨text, false, modified⟩), cache)
  else (.ok ((inlineSources.get? path).map fun text => ⟨text, true, 0⟩), cache)

end SourceText

/-- The placeholders that settings give values. -/
def Settings.tokens (s : Settings) : Text.VersionTokens :=
  ⟨s.version, s.releaseDate⟩

def declarationsOf (text : String) : Except DeclarationFault (List Script.Declaration) :=
  match Script.parse? text with
  | none => .error .notAScript
  | some tree => match Script.declarations tree with
    | .error e => .error (.malformed e)
    | .ok ds => .ok ds

end DefineBundle
