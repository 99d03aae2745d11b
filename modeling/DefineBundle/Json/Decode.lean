import DefineBundle.Assoc
import DefineBundle.Json.Parse
import DefineBundle.Json.Text
import DefineBundle.Text.Quoted

/-!
# Decoding JSON

Values of the expected types from a document, and the faults of a document. The first fault from
the left is the one that counts, whether it is one of the text or one of its content.
-/
namespace DefineBundle.Json

open DefineBundle.Text (Quoted.quote)

inductive Fault
  /-- The text is no JSON. -/
  | malformed
  | unknownField (name : String) (known : List String)
  | missingField (name : String)
  | duplicateField (name : String)
  | wrongType (found expected : String)
  | noVariant (type : String)
  | wrongLength (length : Nat) (expected : String)
  | unusable (message : String)
  deriving DecidableEq, Repr

/-- Names between backquotes with commas between them. -/
def listed : List String → String
  | [] => ""
  | [s] => "\x60" ++ s ++ "\x60"
  | s :: ss => "\x60" ++ s ++ "\x60, " ++ listed ss

/-- What a field must be when it is none of the known ones. -/
def expectation : List String → String
  | [] => "there are no fields"
  | [a] => "expected " ++ listed [a]
  | [a, b] => "expected \x60" ++ a ++ "\x60 or \x60" ++ b ++ "\x60"
  | names => "expected one of " ++ listed names

def Fault.message : Fault → String
  | malformed => "malformed"
  | unknownField name known => "unknown field \x60" ++ name ++ "\x60, " ++ expectation known
  | missingField name => "missing field \x60" ++ name ++ "\x60"
  | duplicateField name => "duplicate field \x60" ++ name ++ "\x60"
  | wrongType found expected => "invalid type: " ++ found ++ ", expected " ++ expected
  | noVariant type => "data did not match any variant of untagged enum " ++ type
  | wrongLength n expected => "invalid length " ++ toString n ++ ", expected " ++ expected
  | unusable message => message

def kindText : Json → String
  | null => "null"
  | bool b => "boolean \x60" ++ (if b then "true" else "false") ++ "\x60"
  | integer n => "integer \x60" ++ toString n ++ "\x60"
  | float isNegative n =>
      "floating point \x60" ++ String.ofList (Text.float isNegative n) ++ "\x60"
  | string s => "string " ++ Quoted.quote s
  | array _ _ => "sequence"
  | object _ _ => "map"
  | malformed => "malformed"

/-- The fault of a value that is not what was expected. -/
def wrong {α : Type} (expected : String) : Json → Except Fault α
  | malformed => .error .malformed
  | j => .error (.wrongType (kindText j) expected)

def asString : Json → Except Fault String
  | string s => .ok s
  | j => wrong "a string" j

def asPath : Json → Except Fault String
  | string s => .ok s
  | j => wrong "path string" j

def asBool : Json → Except Fault Bool
  | bool b => .ok b
  | j => wrong "a boolean" j

/-- A value that may be missing, which is written as null. -/
def asOptional {α : Type} (decode : Json → Except Fault α) : Json → Except Fault (Option α)
  | null => .ok none
  | j => some <$> decode j

/-- A list of strings that has no fault of text, if the value is one. -/
def strings? : Json → Option (List String)
  | array items _ => items.mapM fun
      | string s => some s
      | _ => none
  | _ => none

/-- A value that is one of several variants; its text is looked at as a whole before its
content. -/
def asVariant {α : Type} (type : String) (variant? : Json → Option α) (j : Json) :
    Except Fault α :=
  if !j.isWellFormed then .error .malformed
  else match variant? j with
    | some a => .ok a
    | none => .error (.noVariant type)

def asMap {α : Type} (decode : Json → Except Fault α) : Json → Except Fault (Assoc α)
  | object members isClosed => do
      let pairs ← members.mapM fun (k, j) => do return (k, ← decode j)
      if isClosed then return Assoc.ofList pairs else throw .malformed
  | j => wrong "a map" j

/-- A field of a record that is being read. -/
structure Field (σ : Type) where
  name : String
  set : σ → Json → Except Fault σ

/-- The fields of a record from the members of an object. -/
def setMembers {σ : Type} (fields : List (Field σ)) : List String → σ → List (String × Json) →
    Except Fault (List String × σ)
  | seen, s, [] => .ok (seen, s)
  | seen, s, (k, j) :: ms =>
      match fields.find? fun f => f.name == k with
      | none => .error (.unknownField k (fields.map Field.name))
      | some f =>
          if seen.contains k then .error (.duplicateField k)
          else do
            let s ← f.set s j
            setMembers fields (k :: seen) s ms

/-- The fields of a record from the items of a list, and the items left over. -/
def setItems {σ : Type} : List (Field σ) → σ → List Json → Except Fault (σ × Nat × List Json)
  | [], s, js => .ok (s, 0, js)
  | _ :: _, s, [] => .ok (s, 0, [])
  | f :: fs, s, j :: js => do
      let s ← f.set s j
      let (s, n, rest) ← setItems fs s js
      return (s, n + 1, rest)

/-- A record, written as an object or as the list of its fields. Required fields must be there;
in a list all but those with a default must. -/
def asRecord {σ : Type} (type : String) (fields : List (Field σ)) (required : List String)
    (mayEndEarly : Bool) (start : σ) : Json → Except Fault σ
  | object members isClosed => do
      let (seen, s) ← setMembers fields [] start members
      if !isClosed then throw .malformed
      match required.find? fun r => !seen.contains r with
      | some r => throw (.missingField r)
      | none => return s
  | array items isClosed => do
      let (s, n, rest) ← setItems fields start items
      if n < fields.length && !mayEndEarly then
        if isClosed then
          throw (.wrongLength n
            ("struct " ++ type ++ " with " ++ toString fields.length ++ " elements"))
        else throw .malformed
      if isClosed && rest.isEmpty then return s else throw .malformed
  | j => wrong ("struct " ++ type) j

def decode {α : Type} (decoder : Json → Except Fault α) (text : String) : Except Fault α := do
  let (j, isComplete) := parse text
  let a ← decoder j
  if isComplete then return a else throw .malformed

end DefineBundle.Json
