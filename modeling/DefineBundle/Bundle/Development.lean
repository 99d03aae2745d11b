import DefineBundle.Bundle.Readable
import DefineBundle.Fingerprint.Marker
import DefineBundle.Text.SingleQuoted

/-!
# The development bundle

One line for each file: the path of a file on disk, seen from the directory of the bundle, or the
text of an inline source. The bundle may end in the fingerprint of its build.
-/
namespace DefineBundle.Bundle

open DefineBundle.Text

def loadLine (directory : String) (f : BundleFile) : List Char :=
  if f.isVirtual then
    "\tinline('".toList ++ SingleQuoted.encode f.source.toList ++ "');\n".toList
  else
    "\tload('".toList ++ SingleQuoted.encode (Path.relative f.path directory).toList ++
      "');\n".toList

def globalsLine (globals : Assoc String) : List Char :=
  if globals.entries.isEmpty then []
  else "\tglobals = ".toList ++ (Json.ofAssoc .string globals).chars ++ ";\n\n".toList

def developmentCode (s : Settings) (ms : List ModuleRecord) (path : String) : List Char :=
  (if (exposedIds ms).isEmpty then [] else exposeCall (exposedIds ms) ++ ['\n', '\n']) ++
    globalsLine s.globalModules ++
    (files (members s.globalModules ms)).flatMap (loadLine (Path.parent path)) ++
    "\n\twriteScripts();".toList

def developmentLoader (path : String) : List Char :=
  replaceAll Loader.fileNamePlace ((Path.fileName? path).getD []) Loader.developmentText

def closed (cs : List Char) : List Char :=
  if cs.getLast? == some '\n' then cs else cs ++ ['\n']

/-- The text of the development bundle at a path. -/
def development (s : Settings) (ms : List ModuleRecord) (fingerprint path : String) :
    Except Failure String := do
  let code := ['\n', '\n', '\t'] ++ trim (developmentCode s ms path)
  let bundle ← placed "development loader" (Loader.insertCode? (developmentLoader path) code)
  return if s.hash then String.ofList (closed bundle) ++ Fingerprint.write fingerprint
    else String.ofList bundle

end DefineBundle.Bundle
