import DefineBundle.Script.Numeral

/-!
# JSON documents

A document as the tree of what was read from its text. A fault ends the reading where it stands:
the value at that place is `malformed`, and the lists and objects around it are not closed. A
decoder that goes through the tree from left to right therefore meets a fault of the text exactly
where a reader of the text would, after all faults of content before it.
-/
namespace DefineBundle

/-- A JSON document, up to the first fault of its text. -/
inductive Json
  | null
  | bool (value : Bool)
  | integer (value : Int)
  | float (isNegative : Bool) (value : Script.Numeral)
  | string (value : String)
  | array (items : List Json) (isClosed : Bool)
  | object (members : List (String × Json)) (isClosed : Bool)
  | malformed
  deriving Repr

namespace Json

mutual

def isWellFormed : Json → Bool
  | array items isClosed => isClosed && areWellFormed items
  | object members isClosed => isClosed && membersWellFormed members
  | malformed => false
  | _ => true
termination_by structural j => j

/-- Whether the texts of values have no fault. -/
def areWellFormed : List Json → Bool
  | [] => true
  | j :: js => isWellFormed j && areWellFormed js
termination_by structural js => js

/-- Whether the texts of the values of members have no fault. -/
def membersWellFormed : List (String × Json) → Bool
  | [] => true
  | m :: ms => memberWellFormed m && membersWellFormed ms
termination_by structural ms => ms

/-- Whether the text of the value of a member has no fault. -/
def memberWellFormed : String × Json → Bool
  | (_, j) => isWellFormed j
termination_by structural m => m

end

end Json

end DefineBundle
