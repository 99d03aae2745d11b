import DefineBundle.Json.Text
import DefineBundle.Module.Basic
import DefineBundle.Options.Settings

/-!
# What goes into a bundle

The modules of a build as a bundle needs them: by file, in the order in which the files come first;
the ids that are published, each once; and the global names. Of several modules with one id the
loader keeps the last, so that one carries the global name.
-/
namespace DefineBundle.Bundle

/-- A module and the global name it is published under, if it is. -/
structure Member where
  record : ModuleRecord
  globalName : Option String
  deriving DecidableEq, Repr

structure BundleFile where
  path : String
  source : String
  isVirtual : Bool
  /-- The modules in the file, in their order. -/
  members : List Member
  deriving DecidableEq, Repr

def members (globals : Assoc String) : List ModuleRecord → List Member
  | [] => []
  | m :: ms =>
      ⟨m, if ms.any fun later => later.id == m.id then none else globals.get? m.id⟩ ::
        members globals ms

/-- The files with a module added to its own, or in a new one at the end. -/
def addMember (m : Member) : List BundleFile → List BundleFile
  | [] => [⟨m.record.path, m.record.source, m.record.isVirtual, [m]⟩]
  | f :: fs =>
      if f.path = m.record.path then { f with members := f.members ++ [m] } :: fs
      else f :: addMember m fs

def files (ms : List Member) : List BundleFile :=
  ms.foldl (fun fs m => addMember m fs) []

def exposedIds (ms : List ModuleRecord) : List String :=
  ((ms.filter ModuleRecord.isPublic).map ModuleRecord.id).eraseDups

/-- The ids that have a global name, each once, with that name. -/
def globalNames (globals : Assoc String) (ms : List ModuleRecord) : List (String × String) :=
  (ms.map ModuleRecord.id).eraseDups.filterMap fun id => (globals.get? id).map fun g => (id, g)

def literal (s : String) : List Char :=
  Json.Text.string s

def literals (ids : List String) : List Char :=
  Text.joinWith [','] (ids.map literal)

def exposeCall (ids : List String) : List Char :=
  "expose([".toList ++ literals ids ++ "]);".toList

/-- The statement that gives a module its global name. -/
def aliasStatement (id globalName : String) : List Char :=
  "exports[".toList ++ literal globalName ++ "] = modules[".toList ++ literal id ++ "];".toList

/-- The code with the banner of the settings in front. -/
def withBanner (s : Settings) (code : List Char) : String :=
  s.banner?.getD "" ++ String.ofList code

end DefineBundle.Bundle
