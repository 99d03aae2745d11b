import DefineBundle.Text.Search

/-!
# Paths

A path is text with slashes between its segments. Its lexical normal form drops empty segments and
`.`, and lets `..` take away the segment before it; at the root `..` has nothing to take away, and
at the front of a relative path it stays. Everything here looks at the text alone.
-/
namespace DefineBundle.Path

open DefineBundle.Text

/-- A path as its segments, from the root or relative. -/
structure Route where
  isAbsolute : Bool
  segments : List (List Char)
  deriving DecidableEq, Repr

/-- Whether a path starts at the root. -/
def isAbsolute (p : String) : Bool :=
  p.toList.head? == some '/'

/-- The segments of a path as they are written. -/
def route (p : String) : Route :=
  ⟨isAbsolute p, splitOn '/' p.toList⟩

/-- One more segment after those already walked, which are held in reverse. -/
def step (isAbsolute : Bool) (walked : List (List Char)) (segment : List Char) :
    List (List Char) :=
  if segment == [] || segment == ['.'] then walked
  else if segment == ['.', '.'] then
    match walked with
    | [] => if isAbsolute then [] else [segment]
    | last :: before => if last == ['.', '.'] then segment :: walked else before
  else segment :: walked

/-- The route without segments that lead nowhere. -/
def Route.reduce (r : Route) : Route :=
  { r with segments := (r.segments.foldl (step r.isAbsolute) []).reverse }

/-- The text of a route; an empty relative route is the directory itself. -/
def Route.text (r : Route) : String :=
  let body := joinWith ['/'] r.segments
  if r.isAbsolute then String.ofList ('/' :: body)
  else if r.segments.isEmpty then "."
  else String.ofList body

/-- The lexical normal form of a path. -/
def normalize (p : String) : String :=
  (route p).reduce.text

/-- A path seen from a directory: an absolute path stays as it is. -/
def join (base p : String) : String :=
  if isAbsolute p || base.isEmpty then p
  else if base.toList.getLast? == some '/' then base ++ p
  else base ++ "/" ++ p

/-- The normal form of a path seen from the root. -/
def absolute (p : String) : String :=
  normalize (join "/" p)

/-- What is left of two lists after their common start. -/
def dropCommon : List (List Char) → List (List Char) → List (List Char) × List (List Char)
  | a :: as, b :: bs => if a == b then dropCommon as bs else (a :: as, b :: bs)
  | as, bs => (as, bs)

/-- The way from the directory `base` to a path, both seen from the root; empty when they are the
same. -/
def relative (p base : String) : String :=
  let (up, down) := dropCommon (route (absolute base)).reduce.segments
    (route (absolute p)).reduce.segments
  String.ofList (joinWith ['/'] (up.map (fun _ => ['.', '.']) ++ down))

/-- Whether a segment is only spelling: an empty one, or a `.` that does not come first. -/
def isIdle (isFirst : Bool) (segment : List Char) : Bool :=
  segment == [] || (segment == ['.'] && !isFirst)

/-- The segments that count, where a leading `.` of a relative path does. -/
def components (p : String) : Route :=
  let r := route p
  match r.segments with
  | first :: rest =>
      ⟨r.isAbsolute, (if isIdle (!r.isAbsolute) first then [] else [first]) ++
        rest.filter (fun s => !isIdle false s)⟩
  | [] => r

/-- Whether two paths are the same but for spelling. -/
def same (p q : String) : Bool :=
  components p == components q

/-- Whether a path is a directory or lies below it. -/
def isBelow (directory p : String) : Bool :=
  let d := components directory
  let r := components p
  d.isAbsolute == r.isAbsolute && d.segments.isPrefixOf r.segments

/-- The last segment, unless the path ends in `.` or `..` or is empty. -/
def fileName? (p : String) : Option (List Char) :=
  match (components p).segments.getLast? with
  | some s => if s == ['.'] || s == ['.', '.'] then none else some s
  | none => none

/-- Segments in reverse without idle ones in front; the last of them is the first of the path. -/
def dropIdle (isRelative : Bool) : List (List Char) → List (List Char)
  | [] => []
  | [s] => if isIdle isRelative s then [] else [s]
  | s :: ss => if isIdle false s then dropIdle isRelative ss else s :: ss

/-- The path without its last component, as it is written; nothing for a path without one. -/
def parent? (p : String) : Option String :=
  let r := route p
  match dropIdle (!r.isAbsolute) r.segments.reverse with
  | [] => none
  | _ :: before =>
      let kept := (dropIdle (!r.isAbsolute) before).reverse
      if r.isAbsolute && kept.isEmpty then some "/"
      else some (String.ofList (joinWith ['/'] kept))

/-- The directory a path is in, empty for a path without one. -/
def parent (p : String) : String :=
  (parent? p).getD ""

/-- A file name up to its last dot; a name that only starts with a dot has no other part. -/
def stem (name : List Char) : List Char :=
  match splitLast? ['.'] name with
  | some ([], _) => name
  | some (before, _) => before
  | none => name

/-- The path with its file name replaced. A path without a file name gets one. -/
def withFileName (p : String) (name : String) : String :=
  match fileName? p with
  | some _ => join (parent p) name
  | none => join p name

/-- The path next to `p` with `suffix` between the stem of its name and the extension `js`. -/
def sibling (p suffix : String) : String :=
  let s := (fileName? p).elim [] stem
  withFileName p (String.ofList s ++ "." ++ suffix ++ ".js")

end DefineBundle.Path
