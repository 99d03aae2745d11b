import DefineBundle.Bundle.Readable
import DefineBundle.Bundle.ShortNames
import DefineBundle.Script.DefineCall
import DefineBundle.Script.Parse
import DefineBundle.Script.Splice
import DefineBundle.Text.PlainAscii

/-!
# The minified bundle

The statements of all files spliced into the script of the loader, with variables in place of
module ids, printed small and in plain ASCII. In front of them stands the declaration of the
variables, behind them the global names and the call that publishes modules.
-/
namespace DefineBundle.Bundle

open DefineBundle.Script
open DefineBundle.Script.Tree

/-- The expression for an id: its variable if it has one, otherwise a literal. -/
def idExpression (names : ShortNames) (id : String) : Tree :=
  match names.get? id with
  | some n => leaf (.identifier n)
  | none => leaf (.string id false)

/-- The declaration of the variables, each holding its id. -/
def prologue (names : ShortNames) : List Tree :=
  if names.isEmpty then []
  else [node (.declaration .var) (names.map fun e =>
    node .declarator [leaf (.identifier e.2), leaf (.string e.1 false)])]

/-- `exports[globalName] = modules[id];` -/
def aliasTree (names : ShortNames) (e : String × String) : Tree :=
  node .expression [node (.assign none)
    [node (.index false) [leaf (.identifier "exports"), leaf (.string e.2 false)],
      node (.index false) [leaf (.identifier "modules"), idExpression names e.1]]]

/-- `expose([...]);` -/
def exposeTree (names : ShortNames) (ids : List String) : Tree :=
  node .expression [node (.call false false)
    [leaf (.identifier "expose"), node .array (ids.map (idExpression names))]]

/-- The global names and the call that publishes modules. -/
def epilogue (names : ShortNames) (s : Settings) (ms : List ModuleRecord) : List Tree :=
  (globalNames s.globalModules ms).map (aliasTree names) ++
    if (exposedIds ms).isEmpty then [] else [exposeTree names (exposedIds ms)]

/-- The statements of a file with variables in place of ids. -/
def fileStatements (names : ShortNames) (f : BundleFile) : Except Failure (List Tree) :=
  match statements? f.source with
  | some ts => .ok (renameDefinesAmong names.get? ts)
  | none => .error (.of (.badDeclaration f.path .notAScript))

def shortNames (s : Settings) (ms : List ModuleRecord) : ShortNames :=
  if s.compressModuleIds then ShortNames.ofModules ms else []

/-- The script of the loader, without comments. -/
def loaderScript? : Option Tree :=
  parse? (String.ofList Loader.inlineText)

/-- The script of a bundle inside that of a loader, if the loader is a script. -/
def scriptInside (loader? : Option Tree) (s : Settings) (ms : List ModuleRecord) :
    Except Failure Tree := do
  let names := shortNames s ms
  match loader? with
  | none => throw (.of (.badTemplate "inline loader" "unrecoverable syntax error"))
  | some loader =>
      let parts ← (files (members s.globalModules ms)).mapM (fileStatements names)
      let body := prologue names ++ parts.flatten ++ epilogue names s ms
      placed "inline loader" (loader.splice? Loader.codeMarker body)

def script (s : Settings) (ms : List ModuleRecord) : Except Failure Tree :=
  scriptInside loaderScript? s ms

def printed (tools : Tools) (compression : Option Compression) (t : Tree) : String :=
  match compression with
  | none => print .readable t
  | some c => if c.changesCode then tools.shrink c t else print .compact t

def minified (tools : Tools) (s : Settings) (ms : List ModuleRecord) : Except Failure String := do
  let t ← script s ms
  return withBanner s (Text.PlainAscii.encode (printed tools s.compression t)).toList

end DefineBundle.Bundle
