/-!
# Modules

A module as it was found: one call of `define` in one file.
-/
namespace DefineBundle

/-- A call of `define` together with the file it stands in. -/
structure ModuleRecord where
  id : String
  /-- The path of the file. -/
  path : String
  /-- The text of the whole file, with its placeholders replaced. -/
  source : String
  deps : List String
  isPublic : Bool
  /-- Whether the text comes with the settings and not from disk. -/
  isVirtual : Bool
  /-- When the file was last changed, in milliseconds; zero for a virtual one. -/
  modified : Nat
  deriving DecidableEq, Repr

end DefineBundle
