import DefineBundle.Assoc
import DefineBundle.Files.View
import DefineBundle.Path.Basic

/-!
# Files in a list

The simplest file system: a map from paths to files, without directories of its own. A path is
looked up as it is written; the files below a directory are those whose paths begin with its
segments.
-/
namespace DefineBundle

/-- Files by path. -/
abbrev Listing := Assoc StoredFile

namespace Listing

/-- The fault of a path that leads to no file. -/
def absent : IoFault :=
  ⟨"no such file", []⟩

def notText : IoFault :=
  ⟨"not UTF-8", []⟩

def read (files : Listing) (path : String) : Except IoFault String :=
  match files.get? path with
  | some f => match f.content with
    | some text => .ok text
    | none => .error notText
  | none => .error absent

def modified (files : Listing) (path : String) : Except IoFault Nat :=
  match files.get? path with
  | some f => .ok f.modified
  | none => .error absent

def below (files : Listing) (directory : String) : List String :=
  (files.entries.map Prod.fst).filter fun p => Path.isBelow directory p

theorem mem_keys_of_contains {files : Listing} {path : String} (h : files.contains path = true) :
    path ∈ files.entries.map Prod.fst :=
  Assoc.contains_iff.mp h

def view (files : Listing) : FileView where
  isFile path := files.contains path
  read := files.read
  modified := files.modified
  walk directory := .ok (files.below directory)
  capacity := files.entries.length
  length_le_capacity ps hn h := by
    have hsub : ps ⊆ files.entries.map Prod.fst := fun p hp => mem_keys_of_contains (h p hp)
    simpa using hn.length_le_of_subset hsub

/-- The listing with a file written, which always succeeds. -/
def write (path text : String) (files : Listing) : Except IoFault Unit × Listing :=
  (.ok (), files.insert path ⟨some text, (files.get? path).elim 0 StoredFile.modified⟩)

def fileSystem : FileSystem Listing :=
  ⟨view, write⟩

end Listing

end DefineBundle
