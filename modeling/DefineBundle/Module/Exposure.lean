import DefineBundle.Module.ClassDoc
import DefineBundle.Module.Location

/-!
# Which modules are published

A module of a library follows the choice of the library, any other that of the build.
-/
namespace DefineBundle

/-- Whether a module with the given id and source is published under a choice. -/
def Expose.admits (id source : String) : Expose → Bool
  | never => false
  | always => true
  | unlessPrivate => !ClassDoc.isHidden id source
  | only ids => ids.contains id

namespace Settings

def exposeFor (s : Settings) (id : String) : Expose :=
  match s.libraryFor? id with
  | some (_, library) => library.expose
  | none => s.expose

def publishes (s : Settings) (id source : String) : Bool :=
  (s.exposeFor id).admits id source

end Settings

end DefineBundle
