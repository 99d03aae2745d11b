import DefineBundle.Text.Blank
import DefineBundle.Text.Search
import DefineBundle.Text.WordChars

/-!
# Documentation of classes

A documentation block opens with a slash and two stars, holds at least one character and ends at
the first star and slash after that. It documents the class that its first usable class tag names,
and marks it as private with a tag of its own.
-/
namespace DefineBundle.ClassDoc

open DefineBundle.Text

def opening : List Char :=
  ['/', '*', '*']

def ending : List Char :=
  ['*', '/']

/-- The first block of a text and what follows it. -/
def block? (cs : List Char) : Option (List Char × List Char) :=
  match splitFirst? opening cs with
  | some (_, c :: inside) => (splitFirst? ending inside).map fun (rest, after) => (c :: rest, after)
  | _ => none

theorem length_of_block? {cs block rest : List Char} (h : block? cs = some (block, rest)) :
    rest.length < cs.length := by
  unfold block? at h
  split at h
  · rename_i before c inside hs
    simp only [Option.map_eq_some_iff] at h
    obtain ⟨⟨b, r⟩, he, hp⟩ := h
    simp only [Prod.mk.injEq] at hp
    obtain ⟨rfl, rfl⟩ := hp
    have h1 := congrArg List.length (eq_of_splitFirst? hs)
    have h2 := congrArg List.length (eq_of_splitFirst? he)
    simp only [List.length_append, List.length_cons] at h1 h2
    omega
  · simp at h

/-- The contents of the blocks of a text, in their order. -/
def blocks (cs : List Char) : List (List Char) :=
  match _h : block? cs with
  | some (block, rest) => block :: blocks rest
  | none => []
termination_by cs.length
decreasing_by exact length_of_block? _h

def isNameChar (c : Char) : Bool :=
  !isBlank c && c != '*'

/-- The class that a tag at the start of a text names. -/
def tagName? (cs : List Char) : Option (List Char) :=
  match after? ['@', 'c', 'l', 'a', 's', 's'] cs with
  | some (c :: rest) =>
      let name := (trimStart rest).takeWhile isNameChar
      if isBlank c && !name.isEmpty then some name else none
  | _ => none

/-- The class that a block documents. -/
def className? : List Char → Option (List Char)
  | [] => none
  | c :: cs => (tagName? (c :: cs)).or (className? cs)

/-- Whether a text starts with the tag of private classes. -/
def startsWithPrivate (cs : List Char) : Bool :=
  (after? ['@', 'p', 'r', 'i', 'v', 'a', 't', 'e'] cs).any endsWord

/-- Whether a block has the tag of private classes. -/
def isPrivate : List Char → Bool
  | [] => false
  | c :: cs => startsWithPrivate (c :: cs) || isPrivate cs

/-- An id with dots between its segments and no space around it. -/
def canonicalId (id : List Char) : List Char :=
  (trim id).map fun c => if c == '/' then '.' else c

/-- Whether a block says that a class is private. -/
def hides (id block : List Char) : Bool :=
  ((className? block).any fun name => canonicalId name == canonicalId id) && isPrivate block

/-- Whether a source says that a class is private. -/
def isHidden (id source : String) : Bool :=
  (blocks source.toList).any (hides id.toList)

end DefineBundle.ClassDoc
