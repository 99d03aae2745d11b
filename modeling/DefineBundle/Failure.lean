import DefineBundle.Files.View
import DefineBundle.Options.Settings
import DefineBundle.Script.DefineCall

/-!
# Failures

Why a build stops. A failure is a list of troubles; a trouble is a cause inside contexts that say
what was being done. Its text goes from the outermost context to the last cause behind the cause.
-/
namespace DefineBundle

inductive DeclarationFault
  | notAScript
  | malformed (fault : Script.MalformedDefine)
  deriving DecidableEq, Repr

def DeclarationFault.text : DeclarationFault → String
  | notAScript => "<syntax error>"
  | malformed fault => fault.message

inductive BuildFault
  /-- A file is neither on disk nor among the inline sources. -/
  | missingFile (path : String) (referrer : Option String)
  | badDeclaration (path : String) (reason : DeclarationFault)
  | nothingDiscovered
  | inaccessible (path : String) (cause : IoFault)
  | badTemplate (name reason : String)
  | badOptions (reason : InvalidOptions)
  deriving DecidableEq, Repr

namespace BuildFault

def text : BuildFault → String
  | missingFile path referrer =>
      "Could not find " ++ path ++ referrer.elim "" (fun r => " (required by " ++ r ++ ")") ++ "."
  | badDeclaration path reason =>
      "Failed to evaluate module declarations in " ++ path ++ ": " ++ reason.text
  | nothingDiscovered => "No input files found."
  | inaccessible path cause => "Failed to access " ++ path ++ ": " ++ cause.text
  | badTemplate name reason => "Invalid loader template " ++ name ++ ": " ++ reason
  | badOptions reason => "Invalid options: " ++ reason.message

def causes : BuildFault → List String
  | inaccessible _ cause => cause.text :: cause.causes
  | _ => []

end BuildFault

/-- What is at the bottom of a trouble. -/
inductive Cause
  | fault (fault : BuildFault)
  | other (text : String)
  deriving DecidableEq, Repr

def Cause.texts : Cause → List String
  | fault f => f.text :: f.causes
  | other text => [text]

/-- A cause and what was being done, the outermost first. -/
structure Trouble where
  contexts : List String
  cause : Cause
  deriving DecidableEq, Repr

def Trouble.text (t : Trouble) : String :=
  String.intercalate ": " (t.contexts ++ t.cause.texts)

structure Failure where
  troubles : List Trouble
  deriving DecidableEq, Repr

namespace Failure

def of (f : BuildFault) : Failure :=
  ⟨[⟨[], .fault f⟩]⟩

/-- The text of a failure, a line for each trouble. -/
def text (f : Failure) : String :=
  String.intercalate "\n" (f.troubles.map Trouble.text)

def fault? (f : Failure) : Option BuildFault :=
  f.troubles.findSome? fun t => match t.cause with
    | .fault fault => some fault
    | .other _ => none

end Failure

/-- A failure together with what had come about before it. -/
structure Halted (σ : Type) where
  failure : Failure
  state : σ

theorem bind_eq_ok {ε α β : Type} {x : Except ε α} {f : α → Except ε β} {a : α} {b : β}
    (hx : x = .ok a) (hf : f a = .ok b) : x >>= f = .ok b := by
  rw [hx]
  exact hf

theorem exists_of_bind_eq_ok {ε α β : Type} {x : Except ε α} {f : α → Except ε β} {b : β}
    (h : x >>= f = .ok b) : ∃ a, x = .ok a ∧ f a = .ok b := by
  cases x with
  | error e => cases h
  | ok a => exact ⟨a, rfl, h⟩

theorem exists_of_map_eq_ok {ε α β : Type} {f : α → β} {x : Except ε α} {y : β}
    (h : f <$> x = .ok y) : ∃ a, x = .ok a ∧ f a = y := by
  cases x with
  | error e => cases h
  | ok a => exact ⟨a, rfl, Except.ok.inj h⟩

end DefineBundle
