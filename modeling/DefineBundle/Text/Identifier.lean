import DefineBundle.Text.IdentifierChars

/-!
# Names for arbitrary text

Any text can be turned into a script name: what cannot stand in a name becomes an underscore, and
a character that can only continue a name gets one in front when it comes first.
-/
namespace DefineBundle.Text

/-- Whether a text has the shape of a script name; reserved words have it too. -/
def isIdentifier : List Char → Bool
  | [] => false
  | c :: cs => isNameStart c && cs.all isNamePart

def namePart (c : Char) : Char :=
  if isNamePart c then c else '_'

/-- The characters that open a name for a text with this first character. -/
def nameStart (c : Char) : List Char :=
  if isNameStart c then [c] else if isNamePart c then ['_', c] else ['_']

/-- A script name for a text, which is the text itself when that is a name. -/
def legitimize : List Char → List Char
  | [] => ['_']
  | c :: cs => nameStart c ++ cs.map namePart

end DefineBundle.Text
