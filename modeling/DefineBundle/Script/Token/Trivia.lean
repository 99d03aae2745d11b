import DefineBundle.Script.Token

/-!
# Space and comments

What lies between tokens: spaces, line ends, comments to the end of the line, block comments, and
the comment marks `<!--` and, at the start of a line, `-->`. A comment may say something about the
code after it: that a call is pure, or that a function has no effects.
-/
namespace DefineBundle.Script

/-- What lies in front of a token. -/
structure Gap where
  /-- Whether a line ended. -/
  isFresh : Bool
  /-- Whether a comment calls what follows pure. -/
  isPure : Bool
  /-- Whether a comment calls what follows free of effects. -/
  isEffectFree : Bool
  deriving DecidableEq, Repr

namespace Trivia

def isSpace (c : Char) : Bool :=
  let n := c.toNat
  n == 0x20 || n == 0x09 || n == 0x0B || n == 0x0C || n == 0xA0 || n == 0xFEFF || n == 0x85 ||
    n == 0x1680 || (0x2000 ≤ n && n ≤ 0x200B) || n == 0x202F || n == 0x205F || n == 0x3000

/-- A space that may stand before the words of a comment. -/
def isIndent (mayBreak : Bool) (c : Char) : Bool :=
  c == ' ' || c == '\t' || c == '\x0c' || (mayBreak && (c == '\n' || c == '\r'))

/-- What a comment says about the code after it, given the text after its mark. A block comment may
say it on a later line, but not after a second star. -/
def annotated (isBlock : Bool) (g : Gap) (cs : List Char) : Gap :=
  match cs.dropWhile (isIndent isBlock) with
  | mark :: cs =>
      if mark != '@' && mark != '#' then g
      else if "__PURE__".toList.isPrefixOf cs then { g with isPure := true }
      else if "__NO_SIDE_EFFECTS__".toList.isPrefixOf cs then { g with isEffectFree := true }
      else g
  | [] => g

/-- Where the reader stands. -/
inductive Mode
  | between | lineComment | blockComment

/-- What lies in front of the next token, and the characters from it on. An unclosed block comment
has no end. -/
def skip : Mode → Gap → List Char → Option (Gap × List Char)
  | .between, g, '/' :: '/' :: cs => skip .lineComment (annotated false g cs) cs
  | .between, g, '/' :: '*' :: cs => skip .blockComment (annotated true g cs) cs
  | .between, g, '<' :: '!' :: '-' :: '-' :: cs => skip .lineComment g cs
  | .between, g, c :: cs =>
      if isLineEnd c then skip .between { g with isFresh := true } cs
      else if isSpace c then skip .between g cs
      else if g.isFresh && ['-', '-', '>'].isPrefixOf (c :: cs) then skip .lineComment g cs
      else some (g, c :: cs)
  | .between, g, [] => some (g, [])
  | .lineComment, g, c :: cs =>
      if isLineEnd c then skip .between { g with isFresh := true } cs else skip .lineComment g cs
  | .lineComment, g, [] => some (g, [])
  | .blockComment, g, '*' :: '/' :: cs => skip .between g cs
  | .blockComment, g, c :: cs =>
      skip .blockComment { g with isFresh := g.isFresh || isLineEnd c } cs
  | .blockComment, _, [] => none

end Trivia

end DefineBundle.Script
