import DefineBundle.Script.Token.Trivia
import DefineBundle.Script.Token.Next

/-!
# The reading position

A reader looks at one token at a time. Its position holds that token, the characters it starts at
and the characters after it, so that a slash can be read again as a regular expression and a
closing brace as the end of a substitution. A reader that fails has no result: a script either
parses or does not. Where a reader is tried and fails, the place is remembered, so that readers
tried inside each other do not start over and over again.
-/
namespace DefineBundle.Script

/-- The position of a reader. -/
structure Cursor where
  token : Token
  /-- What lies in front of the token. -/
  gap : Gap
  /-- The characters from the token on. -/
  here : List Char
  /-- The characters after the token. -/
  rest : List Char
  /-- A bound on the number of tokens of the whole text. -/
  budget : Nat
  /-- How many shorthand properties with a default were read that are not part of a pattern. -/
  openDefaults : Nat
  /-- Where an attempt has failed, as numbers of characters up to the end. -/
  failures : List Nat

/-- A reader of scripts. One that fails still tells where attempts have failed. -/
abbrev Parser := OptionT (StateM Cursor)

namespace Parser

/-- The position on the first token of the characters. -/
def moved (c : Cursor) (isFresh : Bool) (cs : List Char) : Option Cursor := do
  let (gap, here) ← Trivia.skip .between ⟨isFresh, false, false⟩ cs
  let (token, rest) ← Token.next? here
  some { c with token, gap, here, rest }

/-- The position on the first token of a text. -/
def start (cs : List Char) : Option Cursor :=
  moved ⟨.finish, ⟨true, false, false⟩, [], [], Text.PlainAscii.extent cs + 2, 0, []⟩ true cs

/-- Moves to the first token of the given characters. -/
def resume (cs : List Char) : Parser Unit := fun c =>
  match moved c false cs with
  | some c => (some (), c)
  | none => (none, c)

def advance : Parser Unit := fun c =>
  resume c.rest c

/-- A look at the current position. -/
def look {α : Type} (f : Cursor → α) : Parser α := fun c => (some (f c), c)

/-- The position after the current token, without moving. -/
def following : Parser (Option Cursor) :=
  look fun c => moved c false c.rest

/-- The token after the current one, without moving; none to be read counts as the end. -/
def followingToken : Parser Token :=
  look fun c => ((moved c false c.rest).map Cursor.token).getD .finish

def token : Parser Token :=
  look Cursor.token

/-- Whether a line ended before the current token. -/
def isFresh : Parser Bool :=
  look fun c => c.gap.isFresh

/-- Whether the current token is the given punctuation. -/
def atMark (m : Mark) : Parser Bool :=
  look fun c => c.token.isMark m

/-- Whether the current token is the given keyword. -/
def atWord (w : String) : Parser Bool :=
  look fun c => c.token.isWord w

/-- Moves past the current token if it is as asked for. -/
def eat (isWanted : Token → Bool) : Parser Bool := do
  if isWanted (← token) then
    advance
    pure true
  else pure false

/-- Moves past the given punctuation if it comes next. -/
def eatMark (m : Mark) : Parser Bool :=
  eat (·.isMark m)

/-- Moves past the given keyword if it comes next. -/
def eatWord (w : String) : Parser Bool :=
  eat (·.isWord w)

def require (b : Bool) : Parser Unit :=
  if b then pure () else failure

/-- Moves past the given punctuation, which must come next. -/
def expectMark (m : Mark) : Parser Unit := do
  require (← eatMark m)

/-- Moves past the given keyword, which must come next. -/
def expectWord (w : String) : Parser Unit := do
  require (← eatWord w)

/-- What a reader reads, or nothing, at the old position, where it fails. A place where it has
failed is remembered, and no reader is tried there again. -/
def attempt {α : Type} (p : Parser α) : Parser (Option α) := fun c =>
  let place := c.here.length
  if c.failures.contains place then (some none, c)
  else match p c with
    | (some a, c) => (some (some a), c)
    | (none, later) => (some none, { c with failures := place :: later.failures })

/-- Whether a statement may end here: before a semicolon, or where one may be left out. -/
def atEnd : Parser Bool :=
  look fun c => c.token.isMark .semicolon || c.token.isMark .braceClose || c.token == .finish ||
    c.gap.isFresh

/-- The end of a statement, with its semicolon if there is one. -/
def endStatement : Parser Unit := do
  require (← atEnd)
  let _ ← eatMark .semicolon

/-- Runs a step until it answers, at most `n` times. -/
def iterate {α β : Type} (step : α → Parser (α ⊕ β)) : Nat → α → Parser β
  | 0, _ => failure
  | n + 1, a => do
      match ← step a with
      | .inl a => iterate step n a
      | .inr b => pure b

/-- Runs a step until it answers. Each step moves past a token. -/
def loop {α β : Type} (a : α) (step : α → Parser (α ⊕ β)) : Parser β := do
  iterate step (← look Cursor.budget) a

/-- Items up to a closing mark, which is passed; between two items stands a comma, and one may
follow the last. -/
def commaSeparated (close : Mark) (item : Parser Tree) : Parser (List Tree) :=
  loop [] fun acc => do
    if ← eatMark close then pure (.inr acc.reverse)
    else
      let t ← item
      if ← eatMark .comma then pure (.inl (t :: acc))
      else
        expectMark close
        pure (.inr (t :: acc).reverse)

end Parser

end DefineBundle.Script
