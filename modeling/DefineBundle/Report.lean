/-!
# What a build reports

Messages in the order in which they come up, each with its level, and the warnings among them.
-/
namespace DefineBundle

inductive Level
  | debug | info | warn | error | fatal
  deriving DecidableEq, Repr

def Level.word : Level → String
  | debug => "debug"
  | info => "info"
  | warn => "warn"
  | error => "error"
  | fatal => "fatal"

structure Message where
  level : Level
  text : String
  deriving DecidableEq, Repr

/-- Something that is odd but does not stop a build. -/
inductive Warning
  /-- A factory does not take as many parameters as it has dependencies. -/
  | arityMismatch (id path : String) (deps params : Nat)
  | duplicateId (id first second : String)
  /-- A file depends on one whose modules are not all known yet. -/
  | circularDependency (path : String)
  | missingInstrumenter (output : String)
  deriving DecidableEq, Repr

def Warning.text : Warning → String
  | arityMismatch id path deps params =>
      "Module " ++ id ++ " in " ++ path ++ " declares " ++ toString deps ++
        " dependencies but its factory takes " ++ toString params ++ " parameters"
  | duplicateId id first second =>
      "Module " ++ id ++ " is declared in both " ++ first ++ " and " ++ second ++
        ", the last definition wins"
  | circularDependency path =>
      "Circular dependency detected while loading " ++ path ++ ", module order is not guaranteed"
  | missingInstrumenter output =>
      "No coverage instrumenter registered, skipped " ++ output

end DefineBundle
