import DefineBundle.Path.Basic
import DefineBundle.Text.Decoded

/-!
# Paths of the system

Paths that a system hands out are bytes, which need not be those of a text. They are joined and
brought into normal form like texts. Where a text is wanted they are shown as one, in which whatever
is no text is replaced. What deals with paths of either kind asks for a `PathForm`.
-/
namespace DefineBundle

/-- What paths must offer to stand in options. -/
class PathForm (π : Type) where
  ofText : String → π
  /-- A path seen from a directory, in normal form. -/
  resolve : π → π → π
  /-- The text with which a path is shown. -/
  shown : π → String
  /-- Whether the path is the text with which it is shown. -/
  isText : π → Bool

/-- A path as the system has it. -/
structure NativePath where
  bytes : List UInt8
  deriving DecidableEq, Repr

namespace NativePath

/-- The path with a character for each of its bytes. -/
def spelled (p : NativePath) : String :=
  String.ofList (p.bytes.map fun b => Char.ofNat b.toNat)

def ofSpelled (text : String) : NativePath :=
  ⟨text.toList.map fun c => UInt8.ofNat c.toNat⟩

instance : PathForm NativePath where
  ofText text := ⟨Text.bytes text⟩
  resolve directory p := ofSpelled (Path.normalize (Path.join directory.spelled p.spelled))
  shown p := String.ofList (Text.decodeUtf8 p.bytes)
  isText p := Text.isUtf8 p.bytes

/-- A text is shown as it is. -/
theorem shown_ofText (text : String) :
    PathForm.shown (PathForm.ofText text : NativePath) = text := by
  change String.ofList (Text.decodeUtf8 (Text.encodeUtf8 text.toList)) = text
  rw [Text.decodeUtf8_encodeUtf8, String.ofList_toList]

theorem isText_ofText (text : String) :
    PathForm.isText (PathForm.ofText text : NativePath) = true :=
  Text.isUtf8_encodeUtf8 text.toList

end NativePath

end DefineBundle
