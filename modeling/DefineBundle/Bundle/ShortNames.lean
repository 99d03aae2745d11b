import DefineBundle.Module.Basic
import DefineBundle.Text.Identifier

/-!
# Bindings that stand for ids

In a minified bundle every id is replaced by the name of a variable that holds it. The name is made
from the id; when it is taken already, a number is put behind it. Names are given in the order in
which ids are first mentioned and never change afterwards.
-/
namespace DefineBundle.Bundle

/-- The names given so far, by id. -/
abbrev ShortNames := List (String × String)

namespace ShortNames

def get? (names : ShortNames) (id : String) : Option String :=
  (names.find? fun e => e.1 == id).map (·.2)

def isTaken (names : ShortNames) (name : String) : Bool :=
  names.any fun e => e.2 == name

/-- The name that an id would have if none were taken. -/
def plainName (id : String) : String :=
  String.ofList ('_' :: Text.legitimize id.toList)

def numbered (name : String) (n : Nat) : String :=
  name ++ "$" ++ toString n

/-- The first numbered name, from `n` on, that is not taken; one of `fuel` many is. -/
def freeNumber (names : ShortNames) (name : String) : Nat → Nat → String
  | 0, n => numbered name n
  | fuel + 1, n =>
      if names.isTaken (numbered name n) then freeNumber names name fuel (n + 1)
      else numbered name n

def nameFor (names : ShortNames) (id : String) : String :=
  let name := plainName id
  if names.isTaken name then freeNumber names name names.length 1 else name

def add (names : ShortNames) (id : String) : ShortNames :=
  if (names.get? id).isSome then names else names ++ [(id, names.nameFor id)]

/-- The ids that modules mention, in their order. -/
def mentioned (ms : List ModuleRecord) : List String :=
  ms.flatMap fun m => m.id :: m.deps

/-- The names of all ids that modules mention. -/
def ofModules (ms : List ModuleRecord) : ShortNames :=
  (mentioned ms).foldl add []

end ShortNames

end DefineBundle.Bundle
