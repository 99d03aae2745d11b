import DefineBundle.Build
import DefineBundle.CommandLine.Arguments

/-!
# Runs

What one call of the program does: it reads the options, builds, and shows what it has written.
Messages go to the log as far as the arguments let them.
-/
namespace DefineBundle.CommandLine

inductive Verbosity
  | errors | information | details | everything
  deriving DecidableEq, Repr

def Arguments.shown (a : Arguments) : Verbosity :=
  if a.has .silent then .errors
  else match a.verbosity with
    | 0 => .information
    | 1 => .details
    | _ => .everything

def Verbosity.admits : Verbosity → Level → Bool
  | errors, l => l == .error || l == .fatal
  | information, l => l != .debug
  | _, _ => true

/-- What stands in front of the messages of a level. -/
def heading : Level → String
  | .debug => "DEBUG "
  | .info => "INFO "
  | .warn => "WARN "
  | .error => "ERROR "
  | .fatal => "ERROR Fatal: "

/-- The lines of a message: the first has the heading, and the others are indented. -/
def lines (m : Message) : List String :=
  match Text.splitOn '\n' m.text.toList with
  | [] => [heading m.level]
  | first :: rest => (heading m.level ++ String.ofList first) ::
      rest.map fun l => "    " ++ String.ofList l

def painted (colour text : String) : String :=
  "\x1b[" ++ colour ++ "m" ++ text ++ "\x1b[0m"

def fill (width used : Nat) : String :=
  String.ofList (List.replicate (width - used) ' ')

/-- Hundredths of a kilobyte, a half to the even neighbour. -/
def hundredths (bytes : Nat) : Nat :=
  let q := 100 * bytes / 1024
  let r := 100 * bytes % 1024
  if 512 < r || (r == 512 && q % 2 == 1) then q + 1 else q

def sizeText (bytes : Nat) : String :=
  let n := hundredths bytes
  toString (n / 100) ++ "." ++ toString (n / 10 % 10) ++ toString (n % 10)

def width (texts : List String) : Nat :=
  (texts.map Text.byteLength).foldl max 0

def assetSize (a : Asset) : String :=
  sizeText (Text.byteLength a.content)

/-- The row of a bundle in a table with the given widths. -/
def row (left right : Nat) (a : Asset) : String :=
  painted "36" a.path ++ fill left (Text.byteLength a.path) ++ " " ++
    painted "2;37" a.target.word ++ fill "development".length a.target.word.length ++
    painted "2;37" " │ size: " ++ fill right (assetSize a).length ++ assetSize a ++ " kB\n"

def table (assets : List Asset) : String :=
  String.join (assets.map
    (row (width (assets.map Asset.path)) (width (assets.map assetSize))))

/-- A run that is over. What it says depends on how long it took, in milliseconds. -/
structure Result (σ : Type) where
  exitCode : Nat
  output : String
  log : String → List Message
  files : σ

/-- The options of a configuration file, if one is named. -/
def configured (view : FileView) (a : Arguments) : Except String Options :=
  match a.config with
  | none => .ok .empty
  | some path => match view.read path with
    | .error e => .error ("Failed to read " ++ path ++ ": " ++ e.text)
    | .ok text => (Options.parse text).mapError Json.Fault.message

/-- The options of a run: those of the configuration file under those of the arguments. -/
def optionsOf (view : FileView) (a : Arguments) : Except String Options :=
  (configured view a).map fun o => o.overriddenBy a.options

/-- What is said after a build that took `elapsed` milliseconds. -/
def summary (a : Arguments) (o : Outcome) (elapsed : String) : List Message :=
  (if a.has .silent || o.isSkipped then []
    else
      [⟨.info,
        "Bundled " ++ toString o.modules.length ++ " modules in " ++ elapsed ++ " ms"⟩]) ++
    if o.warnings.isEmpty then []
    else [⟨.info, toString o.warnings.length ++ " warnings"⟩]

def shownTable (a : Arguments) (o : Outcome) : String :=
  if a.has .silent || o.isSkipped then "" else table o.assets

def refused {σ : Type} (text : String) (files : σ) : Result σ :=
  ⟨1, "", fun _ => [⟨.error, text⟩], files⟩

/-- A build for options, and what is said about it. -/
def buildFor {σ : Type} (fs : FileSystem σ) (current : String) (tools : Tools)
    (a : Arguments) (o : Options) (files : σ) : Result σ :=
  match Bundler.ofOptions current tools o with
  | .error e => refused e.text files
  | .ok b =>
      let f := b.build fs true files
      match f.result with
      | .error _ => ⟨1, "", fun _ => f.log, f.files⟩
      | .ok o => ⟨0, shownTable a o, fun elapsed => f.log ++ summary a o elapsed, f.files⟩

/-- A run with the given arguments, in the current directory of the user. -/
def run {σ : Type} (fs : FileSystem σ) (current : String) (tools : Tools) (a : Arguments)
    (files : σ) : Result σ :=
  let r := match optionsOf (fs.view files) a with
    | .error text => refused text files
    | .ok o => buildFor fs current tools a o files
  { r with log := fun elapsed => (r.log elapsed).filter fun m => a.shown.admits m.level }

end DefineBundle.CommandLine
