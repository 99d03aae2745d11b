import DefineBundle.Options.Document
import DefineBundle.Path.Glob
import DefineBundle.Path.Native

/-!
# Settings

What one build works from: options with every default filled in, every path absolute and in normal
form, and no two bundles at one path. `Options.settings` makes them. Their text is part of what the
fingerprint of a build covers, so every field that has a say in an output is in it; but there is
none where a path is no text.
-/
namespace DefineBundle

/-- A library with its directory. The modules below its name are found and published by its own
rules. -/
structure Library where
  baseDirectory : String
  rootNamespace : Option String
  expose : Expose
  deriving DecidableEq, Repr

/-- Where modules are found. -/
structure Layout where
  baseDirectory : String
  rootNamespace : Option String
  libraries : Assoc Library
  /-- Paths of single modules, by id. -/
  overrides : Assoc String
  deriving DecidableEq

/-- What one build works from. -/
structure Settings extends Layout where
  input : List String
  workingDirectory : String
  /-- Texts of files that need not be on disk, by path. -/
  inlineSources : Assoc String
  compression : Option Compression
  compressModuleIds : Bool
  expose : Expose
  version : Option String
  releaseDate : Option String
  /-- Global names of modules, by id. -/
  globalModules : Assoc String
  outputs : Outputs
  force : Bool
  hash : Bool
  /-- Whether all paths are texts. One that is not stands here as it is shown. -/
  isLegible : Bool
  deriving DecidableEq

inductive InvalidOptions
  | unnamedLibrary
  | repeatedOutput (path : String)
  | illegiblePath
  deriving DecidableEq, Repr

def InvalidOptions.message : InvalidOptions → String
  | unnamedLibrary => "library namespaces must not be empty"
  | repeatedOutput path => path ++ " is configured as more than one output"
  | illegiblePath => "failed to serialize the options: path contains invalid UTF-8 characters"

def Library.toJson (l : Library) : Json :=
  .object [("baseDir", .string l.baseDirectory),
    ("rootNS", Json.ofOption .string l.rootNamespace),
    ("expose", l.expose.toJson)] true

def Library.text (l : Library) : String :=
  l.toJson.text

namespace Settings

/-- The settings as a value, if all paths are texts. Whether a build is forced has no say in its
outputs and stays out. -/
def toJson (s : Settings) : Json :=
  .object [("input", Json.ofStrings s.input),
    ("cwd", .string s.workingDirectory),
    ("baseDir", .string s.baseDirectory),
    ("rootNS", Json.ofOption .string s.rootNamespace),
    ("libs", Json.ofAssoc Library.toJson s.libraries),
    ("moduleOverrides", Json.ofAssoc .string s.overrides),
    ("inlineSources", Json.ofAssoc .string s.inlineSources),
    ("compress", Json.ofOption Compression.toJson s.compression),
    ("compressModuleIds", .bool s.compressModuleIds),
    ("expose", s.expose.toJson),
    ("version", Json.ofOption .string s.version),
    ("releaseDate", Json.ofOption .string s.releaseDate),
    ("globalModules", Json.ofAssoc .string s.globalModules),
    ("outputSource", Json.ofOption .string s.outputs.source),
    ("outputMinified", Json.ofOption .string s.outputs.minified),
    ("outputDev", Json.ofOption .string s.outputs.development),
    ("outputCoverage", Json.ofOption .string s.outputs.coverage),
    ("hash", .bool s.hash)] true

def text (s : Settings) : String :=
  s.toJson.text

/-- The line in front of a bundle, when version and release date are both known. -/
def banner? (s : Settings) : Option String :=
  match s.version, s.releaseDate with
  | some v, some d => some ("// " ++ v ++ " (" ++ d ++ ")\n")
  | _, _ => none

def hasOutput (s : Settings) : Bool :=
  !s.outputs.paths.isEmpty

end Settings

namespace Options

/-- A path seen from a directory, in normal form. -/
def resolvePath (directory path : String) : String :=
  Path.normalize (Path.join directory path)

instance : PathForm String where
  ofText := id
  resolve := resolvePath
  shown := id
  isText _ := true

def namespace? (ns : Option String) : Option String :=
  ns.filter (!·.isEmpty)

def repeated? {π : Type} [DecidableEq π] : List π → List π → Option π
  | _, [] => none
  | seen, p :: ps => if seen.contains p then some p else repeated? (p :: seen) ps

section

open PathForm (resolve shown ofText isText)

variable {π : Type} [PathForm π]

/-- A text among the options, taken for a path and seen from a directory. -/
def resolveText (directory : π) (path : String) : π :=
  resolve directory (ofText path)

/-- The libraries with their directories; each must have a name. -/
def libraries? (directory : π) (expose : Expose) (ls : Assoc (LibraryOptions π)) :
    Except InvalidOptions (Assoc Library) :=
  if ls.contains "" then .error .unnamedLibrary
  else .ok (ls.map fun l =>
    ⟨shown (resolve directory l.baseDirectory), namespace? l.rootNamespace, l.expose.getD expose⟩)

/-- The directory that relative paths are seen from. -/
def directory (current : π) (o : Options π) : π :=
  o.workingDirectory.elim current (resolve current)

/-- The directory of the build's own modules: the one asked for, or else that of the first entry,
or else the working directory. -/
def base (directory : π) (input : List String) (o : Options π) : π :=
  match o.baseDirectory with
  | some b => resolve directory b
  | none => input.head?.elim directory fun p => ofText (Path.Glob.entryDirectory p)

/-- The paths of the settings that options ask for, but for those of the entries and of the inline
sources, which are texts. -/
def paths (directory : π) (input : List String) (o : Options π) : List π :=
  directory :: o.base directory input :: (o.outputs.map (resolve directory)).paths ++
    (o.libraries.getD ∅).entries.map (fun e => resolve directory e.2.baseDirectory) ++
    (o.moduleOverrides.getD ∅).entries.map fun e => resolveText directory e.2

/-- The settings that options ask for, in the current directory of the user. -/
def settings [DecidableEq π] (current : π) (o : Options π) : Except InvalidOptions Settings := do
  let directory := o.directory current
  let input := (o.inputs.elim [] Inputs.patterns).map fun p => shown (resolveText directory p)
  let expose := o.expose.getD .always
  let outputs := o.outputs.map (resolve directory)
  let libraries ← libraries? directory expose (o.libraries.getD ∅)
  if let some path := repeated? [] outputs.paths then throw (.repeatedOutput (shown path))
  return {
    baseDirectory := shown (o.base directory input)
    rootNamespace := namespace? o.rootNamespace
    libraries
    overrides := (o.moduleOverrides.getD ∅).map fun p => shown (resolveText directory p)
    input
    workingDirectory := shown directory
    inlineSources := Assoc.ofList ((o.inlineSources.getD ∅).entries.map fun e =>
      (shown (resolveText directory e.1), e.2))
    compression := o.compression.elim (some .standard) CompressionChoice.resolve
    compressModuleIds := o.compressModuleIds.getD true
    expose
    version := o.version
    releaseDate := o.releaseDate
    globalModules := o.globalModules.getD ∅
    outputs := outputs.map shown
    force := o.force.getD false
    hash := o.hash.getD true
    isLegible := (o.paths directory input).all isText }

end

end Options

end DefineBundle
