import DefineBundle.Assoc

/-!
# Options

What a user asks for, in a configuration file or on the command line. Everything may be left out;
`Options.overriddenBy` lays one set of options over another, field by field.
-/
namespace DefineBundle

/-- Which modules a bundle publishes. -/
inductive Expose
  | never
  | always
  /-- All but those whose class is documented as private. -/
  | unlessPrivate
  | only (ids : List String)
  deriving DecidableEq, Repr

def Expose.ofWord? : String → Option Expose
  | "false" => some never
  | "true" => some always
  | "public" => some unlessPrivate
  | _ => none

structure Compression where
  /-- Local names are shortened. -/
  mangle : Bool
  /-- Code without effect is removed. -/
  deadCode : Bool
  dropConsole : Bool
  dropDebugger : Bool
  deriving DecidableEq, Repr

def Compression.standard : Compression :=
  ⟨true, true, false, false⟩

/-- Whether the code itself is changed, and not only its layout. -/
def Compression.changesCode (c : Compression) : Bool :=
  c.mangle || c.deadCode

/-- A wish for compression: on, off, or in detail. -/
inductive CompressionChoice
  | enabled (isOn : Bool)
  | custom (compression : Compression)
  deriving DecidableEq, Repr

/-- The compression of a choice; none when it is off. -/
def CompressionChoice.resolve : CompressionChoice → Option Compression
  | enabled true => some .standard
  | enabled false => none
  | custom c => some c

/-- Where discovery starts: a path or pattern, or a list of them. -/
inductive Inputs
  | one (pattern : String)
  | many (patterns : List String)
  deriving DecidableEq, Repr

def Inputs.patterns : Inputs → List String
  | one p => [p]
  | many ps => ps

/-- The kinds of bundles, in the order in which they are made. -/
inductive Target
  | source | minified | development | coverage
  deriving DecidableEq, Repr

def Target.all : List Target :=
  [source, minified, development, coverage]

def Target.word : Target → String
  | source => "source"
  | minified => "minified"
  | development => "development"
  | coverage => "coverage"

/-- Where the bundles go; a kind without a path is not made. Paths are texts if nothing else is
said. -/
structure Outputs (π : Type := String) where
  source : Option π
  minified : Option π
  development : Option π
  coverage : Option π
  deriving DecidableEq, Repr

namespace Outputs

variable {π : Type}

def empty : Outputs π :=
  ⟨none, none, none, none⟩

def path? (o : Outputs π) : Target → Option π
  | .source => o.source
  | .minified => o.minified
  | .development => o.development
  | .coverage => o.coverage

/-- The paths that are given, in the order in which the bundles are made. -/
def paths (o : Outputs π) : List π :=
  Target.all.filterMap o.path?

def map {ρ : Type} (f : π → ρ) (o : Outputs π) : Outputs ρ :=
  ⟨o.source.map f, o.minified.map f, o.development.map f, o.coverage.map f⟩

/-- The outputs with those that others give replaced. -/
def overriddenBy (o other : Outputs π) : Outputs π :=
  ⟨other.source <|> o.source, other.minified <|> o.minified, other.development <|> o.development,
    other.coverage <|> o.coverage⟩

end Outputs

/-- A library as it is asked for: the modules below its name live in a directory of their own. -/
structure LibraryOptions (π : Type := String) where
  baseDirectory : π
  rootNamespace : Option String
  expose : Option Expose
  deriving DecidableEq, Repr

/-- What a user asks for. Places are named by texts, or by paths of the system. -/
structure Options (π : Type := String) where
  inputs : Option Inputs
  workingDirectory : Option π
  baseDirectory : Option π
  rootNamespace : Option String
  libraries : Option (Assoc (LibraryOptions π))
  moduleOverrides : Option (Assoc String)
  inlineSources : Option (Assoc String)
  compression : Option CompressionChoice
  /-- Whether module ids are replaced by short bindings in the minified bundle. -/
  compressModuleIds : Option Bool
  expose : Option Expose
  version : Option String
  releaseDate : Option String
  globalModules : Option (Assoc String)
  outputs : Outputs π
  /-- Whether to build even when nothing has changed. -/
  force : Option Bool
  /-- Whether the development bundle carries the fingerprint of the build. -/
  hash : Option Bool
  deriving DecidableEq

namespace Options

variable {π : Type}

def empty : Options π :=
  ⟨none, none, none, none, none, none, none, none, none, none, none, none, none, Outputs.empty,
    none, none⟩

/-- The options with every field that others give replaced. -/
def overriddenBy (o other : Options π) : Options π where
  inputs := other.inputs <|> o.inputs
  workingDirectory := other.workingDirectory <|> o.workingDirectory
  baseDirectory := other.baseDirectory <|> o.baseDirectory
  rootNamespace := other.rootNamespace <|> o.rootNamespace
  libraries := other.libraries <|> o.libraries
  moduleOverrides := other.moduleOverrides <|> o.moduleOverrides
  inlineSources := other.inlineSources <|> o.inlineSources
  compression := other.compression <|> o.compression
  compressModuleIds := other.compressModuleIds <|> o.compressModuleIds
  expose := other.expose <|> o.expose
  version := other.version <|> o.version
  releaseDate := other.releaseDate <|> o.releaseDate
  globalModules := other.globalModules <|> o.globalModules
  outputs := o.outputs.overriddenBy other.outputs
  force := other.force <|> o.force
  hash := other.hash <|> o.hash

end Options

end DefineBundle
