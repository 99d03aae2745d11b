import DefineBundle.Text.Bytes

/-!
# Matching path patterns

A pattern is matched against the bytes of a path from left to right. `?` and a class take one byte,
`*` a run of bytes without a slash, and a whole segment `**` any number of segments, also none.
Braces list alternatives and nest; a backslash takes the next byte as it is. Exclamation marks in
front turn the answer around, each of them once.

The search keeps one place to go back to: a star that is met later replaces an earlier one, because
an earlier star could only give bytes that the later one takes as well. A `**` is kept apart, since
it may pass a slash where `*` may not. The branches of a brace are tried one after the other, each
with the whole rest of the pattern.
-/
namespace DefineBundle.Path.Glob

open DefineBundle.Text

def ascii (c : Char) : UInt8 :=
  c.toNat.toUInt8

/-- The byte that a backslash before a byte stands for. -/
def unescaped (b : UInt8) : UInt8 :=
  if b == ascii 'n' then 10
  else if b == ascii 'r' then 13
  else if b == ascii 't' then 9
  else if b == ascii 'b' then 8
  else b

/-- A byte of a class, which may be escaped, and what follows. -/
def classByte? : List UInt8 → Option (UInt8 × List UInt8)
  | [] => none
  | b :: bs =>
      if b == ascii '\\' then
        match bs with
        | [] => none
        | e :: bs => some (unescaped e, bs)
      else some (b, bs)

/-- The ranges of a class up to its end; the first byte never ends it. -/
def classRanges : Nat → Bool → List UInt8 → Option (List (UInt8 × UInt8) × List UInt8)
  | 0, _, _ => none
  | n + 1, isFirst, bs =>
      if !isFirst && bs.head? == some (ascii ']') then some ([], bs.drop 1)
      else
        match classByte? bs with
        | none => none
        | some (low, rest) =>
            let high := match rest with
              | dash :: next :: _ =>
                  if dash == ascii '-' && next != ascii ']' then classByte? (rest.drop 1)
                  else some (low, rest)
              | _ => some (low, rest)
            match high with
            | none => none
            | some (high, rest) =>
                (classRanges n false rest).map fun (ranges, rest) => ((low, high) :: ranges, rest)

/-- A class after its bracket: whether it takes a byte, and how long it is. A class that is not
closed is none. -/
def class? (bs : List UInt8) (b : UInt8) : Option (Bool × Nat) :=
  let isNegated := bs.head? == some (ascii '!') || bs.head? == some (ascii '^')
  let body := if isNegated then bs.drop 1 else bs
  (classRanges (body.length + 1) true body).map fun (ranges, rest) =>
    (ranges.any (fun r => r.1 ≤ b && b ≤ r.2) != isNegated, bs.length - rest.length)

/-- Where the branches of a brace start, given the text after its opening brace: the number of
open braces, whether a class is open, the start of the branch that is read and the place of the
first byte of the text. A branch counts when it has an end. -/
def branchStarts : Nat → Bool → Nat → Nat → List UInt8 → List Nat
  | _, _, _, _, [] => []
  | depth, inClass, start, i, b :: bs =>
      if b == ascii '\x7b' && !inClass then branchStarts (depth + 1) inClass start (i + 1) bs
      else if b == ascii '\x7d' && !inClass then
        if depth ≤ 1 then [start] else branchStarts (depth - 1) inClass start (i + 1) bs
      else if b == ascii ',' && depth == 1 then
        start :: branchStarts depth inClass (i + 1) (i + 1) bs
      else if b == ascii '[' then branchStarts depth true start (i + 1) bs
      else if b == ascii ']' then branchStarts depth false start (i + 1) bs
      else if b == ascii '\\' then
        match bs with
        | [] => []
        | _ :: bs => branchStarts depth inClass start (i + 2) bs
      else branchStarts depth inClass start (i + 1) bs

/-- How many bytes the rest of a brace has, with the closing brace, and the number of braces that
are open after it. -/
def braceRest : Nat → Bool → List UInt8 → Nat × Nat
  | depth, _, [] => (0, depth)
  | depth, inClass, b :: bs =>
      let after (n : Nat) (r : Nat × Nat) : Nat × Nat := (n + r.1, r.2)
      if b == ascii '\x7b' && !inClass then after 1 (braceRest (depth + 1) inClass bs)
      else if b == ascii '\x7d' && !inClass then
        if depth ≤ 1 then (1, 0) else after 1 (braceRest (depth - 1) inClass bs)
      else if b == ascii '[' then after 1 (braceRest depth true bs)
      else if b == ascii ']' then after 1 (braceRest depth false bs)
      else if b == ascii '\\' then
        match bs with
        | [] => (1, depth)
        | _ :: bs => after 2 (braceRest depth inClass bs)
      else after 1 (braceRest depth inClass bs)

/-- A place in the pattern and in the path, and the number of braces around it. -/
structure Spot where
  pattern : Nat
  path : Nat
  depth : Nat
  deriving DecidableEq, Repr

/-- The state of a search: where it stands, where it goes back to, and where it goes back to once
a slash has been passed. Nothing to go back to is a spot at the start of the path. -/
structure Search where
  here : Spot
  star : Spot
  segments : Spot
  deriving DecidableEq, Repr

/-- What comes after a look at the next part of the pattern. -/
inductive Outcome
  | next (s : Search)
  /-- The part does not fit here. -/
  | mismatch
  /-- The pattern is faulty. -/
  | fault
  /-- A brace none of whose branches has been chosen. -/
  | choice
  deriving Repr

/-- How many bytes of further `/**` stand at the front of the rest of a pattern. -/
def furtherSegments : List UInt8 → Nat
  | a :: b :: c :: rest =>
      if a == ascii '/' && b == ascii '*' && c == ascii '*' then
        match rest with
        | [] => 3
        | d :: _ => if d == ascii '/' then 3 + furtherSegments rest else 0
      else 0
  | _ => 0

/-- The place after the next slash of a path from a place on, or its end; at the end of the
pattern, the last segment is left standing. -/
def afterSlash (path : Array UInt8) (i : Nat) (isInside : Bool) : Nat :=
  let slash := i + ((path.toList.drop i).takeWhile (· != ascii '/')).length
  if isInside || slash != path.size then slash + 1 else slash

/-- The search after one star. -/
def afterStar (path : Array UInt8) (s : Search) : Search :=
  let star := { s.here with path := s.here.path + 1 }
  let isAtSlash := path[s.here.path]? == some (ascii '/')
  { s with
    here := { s.here with pattern := s.here.pattern + 1 }
    star := if isAtSlash then s.segments else star }

/-- The search after two stars, in a part of the pattern that starts at `start`: they stand for
segments when they are one, and for a run otherwise. -/
def afterStars (pattern path : Array UInt8) (start : Nat) (s : Search) : Search :=
  let stars := s.here.pattern + furtherSegments (pattern.toList.drop (s.here.pattern + 2))
  let star : Spot := ⟨stars, s.here.path + 1, s.here.depth⟩
  let next := stars + 2
  let isInside := next != pattern.size
  let opens := next - start < 3 || pattern[stars - 1]? == some (ascii '/')
  let closes := !isInside || pattern[next]? == some (ascii '/')
  if opens && closes then
    let here := { s.here with pattern := if isInside then next + 1 else next }
    if s.here.path == path.size then
      ⟨here, { star with path := star.path + 1 }, s.segments⟩
    else
      let star := { star with path := afterSlash path s.here.path isInside }
      ⟨here, star, star⟩
  else
    let isAtSlash := path[s.here.path]? == some (ascii '/')
    { s with
      here := { s.here with pattern := next }
      star := if isAtSlash then s.segments else star }

/-- The search after one byte of the pattern that stands for itself. -/
def afterByte (pattern path : Array UInt8) (s : Search) (b : UInt8) : Outcome :=
  match path[s.here.path]? with
  | none => .mismatch
  | some c =>
      let isEscape := b == ascii '\\'
      match (if isEscape then (pattern[s.here.pattern + 1]?).map unescaped else some b) with
      | none => .fault
      | some b =>
          if b != c then .mismatch
          else .next
            { s with
              here := ⟨s.here.pattern + (if isEscape then 2 else 1), s.here.path + 1, s.here.depth⟩
              star := if b == ascii '/' then s.segments else s.star }

/-- Looks at the next part of the pattern, in a part of it that starts at `start` and with
branches chosen for the braces around. -/
def look (pattern path : Array UInt8) (start : Nat) (chosen : List (Nat × Nat)) (s : Search) :
    Outcome :=
  let here := s.here
  match pattern[here.pattern]? with
  | none => .mismatch
  | some b =>
      if b == ascii '*' then
        if pattern[here.pattern + 1]? == some (ascii '*') then
          .next (afterStars pattern path start s)
        else .next (afterStar path s)
      else if b == ascii '?' then
        match path[here.path]? with
        | none => .mismatch
        | some c =>
            if c == ascii '/' then .mismatch
            else .next { s with here := ⟨here.pattern + 1, here.path + 1, here.depth⟩ }
      else if b == ascii '[' then
        match path[here.path]? with
        | none => .mismatch
        | some c => match class? (pattern.toList.drop (here.pattern + 1)) c with
            | none => .fault
            | some (false, _) => .mismatch
            | some (true, n) =>
                .next { s with here := ⟨here.pattern + 1 + n, here.path + 1, here.depth⟩ }
      else if b == ascii '\x7b' then
        match chosen.find? fun choice => choice.1 == here.pattern with
        | some (_, branch) => .next { s with here := ⟨branch, here.path, here.depth + 1⟩ }
        | none => .choice
      else if (b == ascii ',' || b == ascii '\x7d') && 0 < here.depth then
        let (n, depth) := braceRest 1 false (pattern.toList.drop here.pattern)
        .next { s with here := ⟨here.pattern + n, here.path, here.depth - 1 + depth⟩ }
      else afterByte pattern path s b

/-- Whether a search ends well, in a part of the pattern that starts at `start` and with branches
chosen for the braces around. -/
def search (pattern path : Array UInt8) : Nat → Nat → List (Nat × Nat) → Search → Bool
  | 0, _, _, _ => false
  | n + 1, start, chosen, s =>
      if pattern.size ≤ s.here.pattern && path.size ≤ s.here.path then true
      else match look pattern path start chosen s with
        | .next s => search pattern path n start chosen s
        | .mismatch =>
            if 0 < s.star.path && s.star.path ≤ path.size then
              search pattern path n start chosen { s with here := s.star }
            else false
        | .fault => false
        | .choice =>
            let first := s.here.pattern + 1
            (branchStarts 1 false first first (pattern.toList.drop first)).any fun branch =>
              search pattern path n branch (chosen ++ [(s.here.pattern, branch)])
                { s with here := ⟨branch, s.here.path, chosen.length + 1⟩ }

/-- Whether a pattern matches a whole path. A star goes back at most once for each byte of the
path, and the parts of the pattern between are passed anew each time, which bounds the steps. -/
def matchesPath (pattern path : String) : Bool :=
  let pattern := (Text.bytes pattern).toArray
  let path := (Text.bytes path).toArray
  let marks := (pattern.toList.takeWhile (· == ascii '!')).length
  let start : Spot := ⟨marks, 0, 0⟩
  let none : Spot := ⟨0, 0, 0⟩
  let steps := Nat.pow ((pattern.size + 2) * (path.size + 2)) 4
  search pattern path steps 0 [] ⟨start, none, none⟩ != (marks % 2 == 1)

end DefineBundle.Path.Glob
