import DefineBundle.Script.Tree

/-!
# Exported names

The names by which a script exports something, wherever in it the exports stand. A name of a type is
not among them, and a default export counts under its own word.
-/
namespace DefineBundle.Script.Tree

mutual

/-- The variables that a declaration or pattern declares. -/
def boundNames : Tree → List String
  | node (.identifier n) _ => [n]
  | node .withDefault (target :: _) => boundNames target
  | node (.property _) [_, value] => boundNames value
  | node .declarator (target :: _) => boundNames target
  | node (.function _ _ _) (name :: _) => boundNames name
  | node .classOf (_ :: name :: _) => boundNames name
  | node (.declaration _) ts => boundNamesAmong ts
  | node (.arrayPattern _) ts => boundNamesAmong ts
  | node (.objectPattern _) ts => boundNamesAmong ts
  | node .rest ts => boundNamesAmong ts
  | _ => []
termination_by structural t => t

/-- The variables that several declarations or patterns declare. -/
def boundNamesAmong : List Tree → List String
  | [] => []
  | t :: ts => boundNames t ++ boundNamesAmong ts
termination_by structural ts => ts

end

mutual

def exportedNames : Tree → List String
  | node (.exportName isType _ name) _ => if isType then [] else [name.text]
  | node (.exportNames true) _ => []
  | node (.exportAll isType name) _ => if isType then [] else (name.map ExternalName.text).toList
  | node .exportDefault ts => "default" :: exportedNamesAmong ts
  | node .exportDeclaration [t] => boundNames t ++ exportedNames t
  | node _ ts => exportedNamesAmong ts
termination_by structural t => t

/-- The names by which several trees export something. -/
def exportedNamesAmong : List Tree → List String
  | [] => []
  | t :: ts => exportedNames t ++ exportedNamesAmong ts
termination_by structural ts => ts

end

end DefineBundle.Script.Tree
