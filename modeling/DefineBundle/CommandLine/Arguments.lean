import DefineBundle.Options.Basic
import DefineBundle.Path.Basic
import DefineBundle.Text.Blank
import DefineBundle.Text.Quoted
import DefineBundle.Text.Search

/-!
# Command line arguments

What the arguments say: inputs, options with a value, and switches. Each option and switch may come
once, but for the one that asks for more messages.
-/
namespace DefineBundle.CommandLine

/-- Why arguments are refused, or what is asked for instead of a run. -/
inductive Refusal
  | unknownArgument
  | missingArgument
  | invalidValue
  /-- A value was looked at and found unusable. -/
  | rejectedValue
  | conflict
  /-- A switch was given a value. -/
  | surplusValue
  | help
  | version
  deriving DecidableEq, Repr

inductive Setting
  | config | workingDirectory | baseDirectory | rootNamespace | expose | version | releaseDate
  | output
  deriving DecidableEq, Repr

inductive Switch
  | noCompress | noMinified | noDevelopment | force | noHash | silent
  deriving DecidableEq, Repr

inductive Flag
  | setting (s : Setting)
  | switch (s : Switch)
  | verbose
  | help
  | version
  deriving DecidableEq, Repr

def Flag.ofLong? : String → Option Flag
  | "config" => some (setting .config)
  | "cwd" => some (setting .workingDirectory)
  | "base-dir" => some (setting .baseDirectory)
  | "root-ns" => some (setting .rootNamespace)
  | "expose" => some (setting .expose)
  | "no-compress" => some (switch .noCompress)
  | "version-string" => some (setting .version)
  | "release-date" => some (setting .releaseDate)
  | "output" => some (setting .output)
  | "no-minified" => some (switch .noMinified)
  | "no-dev" => some (switch .noDevelopment)
  | "force" => some (switch .force)
  | "no-hash" => some (switch .noHash)
  | "verbose" => some verbose
  | "silent" => some (switch .silent)
  | "help" => some help
  | "version" => some version
  | _ => none

def Flag.ofShort? : Char → Option Flag
  | 'c' => some (setting .config)
  | 'o' => some (setting .output)
  | 'f' => some (switch .force)
  | 'v' => some verbose
  | 's' => some (switch .silent)
  | 'h' => some help
  | 'V' => some version
  | _ => none

structure Arguments where
  inputs : List String
  config : Option String
  workingDirectory : Option String
  baseDirectory : Option String
  rootNamespace : Option String
  expose : Option Expose
  version : Option String
  releaseDate : Option String
  output : Option String
  /-- The switches that are on. -/
  switches : List Switch
  /-- How often more messages were asked for. -/
  verbosity : Nat
  deriving DecidableEq, Repr

namespace Arguments

def empty : Arguments :=
  ⟨[], none, none, none, none, none, none, none, none, [], 0⟩

def has (a : Arguments) (s : Switch) : Bool :=
  a.switches.contains s

end Arguments

/-- The choice that the value of an option stands for: a word, or ids with commas between them. -/
def exposeOf (value : String) : Except String Expose :=
  match Expose.ofWord? value with
  | some e => .ok e
  | none =>
      let ids := ((Text.splitOn ',' value.toList).map Text.trim).filter (!·.isEmpty)
      if ids.isEmpty then
        .error ("expected \x60true\x60, \x60false\x60, \x60public\x60 or module ids, got " ++
          Text.Quoted.quote value)
      else .ok (.only (ids.map String.ofList))

def Arguments.isSet (a : Arguments) : Setting → Bool
  | .config => a.config.isSome
  | .workingDirectory => a.workingDirectory.isSome
  | .baseDirectory => a.baseDirectory.isSome
  | .rootNamespace => a.rootNamespace.isSome
  | .expose => a.expose.isSome
  | .version => a.version.isSome
  | .releaseDate => a.releaseDate.isSome
  | .output => a.output.isSome

def pathValue (value : String) : Except Refusal String :=
  if value.isEmpty then .error .invalidValue else .ok value

def Arguments.set (a : Arguments) (s : Setting) (value : String) : Except Refusal Arguments :=
  if a.isSet s then .error .conflict
  else match s with
    | .config => do return { a with config := some (← pathValue value) }
    | .workingDirectory => do return { a with workingDirectory := some (← pathValue value) }
    | .baseDirectory => do return { a with baseDirectory := some (← pathValue value) }
    | .rootNamespace => .ok { a with rootNamespace := some value }
    | .expose => match exposeOf value with
        | .ok e => .ok { a with expose := some e }
        | .error _ => .error .rejectedValue
    | .version => .ok { a with version := some value }
    | .releaseDate => .ok { a with releaseDate := some value }
    | .output => do return { a with output := some (← pathValue value) }

/-- The arguments with an option that takes no value. -/
def Arguments.turnOn (a : Arguments) : Flag → Except Refusal Arguments
  | .switch s =>
      if a.has s then .error .conflict else .ok { a with switches := s :: a.switches }
  | .verbose => .ok { a with verbosity := a.verbosity + 1 }
  | .help => .error .help
  | .version => .error .version
  | .setting _ => .error .invalidValue

/-- What has been read, and an option whose value is still to come or has not been looked at. -/
structure Reading where
  arguments : Arguments
  waiting : Option (Setting × Option String)

namespace Reading

/-- The arguments with the value of the waiting option. -/
def settle (r : Reading) : Except Refusal Arguments :=
  match r.waiting with
  | none => .ok r.arguments
  | some (_, none) => .error .invalidValue
  | some (s, some value) => r.arguments.set s value

def turnOn (r : Reading) (f : Flag) : Except Refusal Reading := do
  return ⟨← (← r.settle).turnOn f, none⟩

/-- An option with a value that is written with it. -/
def assign (r : Reading) (s : Setting) (value : String) : Except Refusal Reading := do
  return ⟨← (← r.settle).set s value, none⟩

/-- An option whose value is the next argument. -/
def await (r : Reading) (s : Setting) : Except Refusal Reading := do
  return ⟨← r.settle, some (s, none)⟩

/-- A long name, with the text after its equals sign if there is one. -/
def long (r : Reading) (name : String) (value : Option String) : Except Refusal Reading :=
  match Flag.ofLong? name, value with
  | none, _ => .error .unknownArgument
  | some (.setting s), some v => r.assign s v
  | some (.setting s), none => r.await s
  | some _, some _ => .error .surplusValue
  | some f, none => r.turnOn f

/-- Letters. The first that takes a value has the other letters for its value. -/
def short (r : Reading) : List Char → Except Refusal Reading
  | [] => .ok r
  | c :: cs => match Flag.ofShort? c with
    | none => .error .unknownArgument
    | some (.setting s) => match cs with
      | [] => r.await s
      | '=' :: value => r.assign s (String.ofList value)
      | value => r.assign s (String.ofList value)
    | some f => do short (← r.turnOn f) cs

/-- An argument that is no option: the value of the waiting option, or an input. -/
def plain (r : Reading) (text : String) : Except Refusal Reading :=
  match r.waiting with
  | some (s, none) => .ok ⟨r.arguments, some (s, some text)⟩
  | _ => do
      let a ← r.settle
      return ⟨{ a with inputs := a.inputs ++ [text] }, none⟩

def argument (r : Reading) (text : String) : Except Refusal Reading :=
  match text.toList with
  | '-' :: '-' :: name => match Text.splitFirst? ['='] name with
    | some (name, value) => r.long (String.ofList name) (some (String.ofList value))
    | none => r.long (String.ofList name) none
  | '-' :: c :: cs => r.short (c :: cs)
  | _ => r.plain text

/-- All arguments. After two dashes alone there are only inputs. -/
def all (r : Reading) : List String → Except Refusal Arguments
  | [] => r.settle
  | text :: rest =>
      if text == "--" then do
        let a ← r.settle
        return { a with inputs := a.inputs ++ rest }
      else do all (← r.argument text) rest

end Reading

namespace Arguments

def check (a : Arguments) : Except Refusal Arguments :=
  if 0 < a.verbosity && a.has .silent then .error .conflict
  else if (a.has .noMinified || a.has .noDevelopment) && a.output.isNone then
    .error .missingArgument
  else .ok a

def parse (texts : List String) : Except Refusal Arguments := do
  (← Reading.all ⟨empty, none⟩ texts).check

/-- The path of a bundle next to the readable one, unless it is turned off. -/
def sibling? (a : Arguments) (off : Switch) (suffix : String) : Option String :=
  if a.has off then none else a.output.map fun path => Path.sibling path suffix

def inputs? (a : Arguments) : Option Inputs :=
  match a.inputs with
  | [] => none
  | [p] => some (.one p)
  | ps => some (.many ps)

/-- The options that arguments ask for. -/
def options (a : Arguments) : Options where
  inputs := a.inputs?
  workingDirectory := a.workingDirectory
  baseDirectory := a.baseDirectory
  rootNamespace := a.rootNamespace
  libraries := none
  moduleOverrides := none
  inlineSources := none
  compression := if a.has .noCompress then some (.enabled false) else none
  compressModuleIds := none
  expose := a.expose
  version := a.version
  releaseDate := a.releaseDate
  globalModules := none
  outputs := ⟨a.output, a.sibling? .noMinified "min", a.sibling? .noDevelopment "dev", none⟩
  force := if a.has .force then some true else none
  hash := if a.has .noHash then some false else none

end Arguments

end DefineBundle.CommandLine
