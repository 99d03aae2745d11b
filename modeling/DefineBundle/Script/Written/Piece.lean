import DefineBundle.Script.Written.Literal

/-!
# Pieces of a printed script

A script is printed as a list of pieces. Some show in readable text only, and some must be kept
apart from what stands before them: a word from a word, a sign from the same sign, a regular
expression from a slash, a dot from a whole number. A statement end shows in compact text only
where something other than a closing brace follows.
-/
namespace DefineBundle.Script

inductive Piece
  /-- A name, keyword or number. -/
  | word (text : String)
  /-- A number without point, exponent or mark, which a following dot would join. -/
  | whole (text : String)
  /-- Text that never merges with what stands before it. -/
  | text (text : String)
  /-- An operator. -/
  | sign (text : String)
  /-- The place before an operand whose operator follows it. -/
  | beforeOperand (sign : String)
  | dot
  | regex (pattern flags : String)
  /-- A space in readable text only. -/
  | gap
  | space
  /-- A space in compact text only. -/
  | compactSpace
  | indent (depth : Nat)
  | newline
  | statementEnd
  /-- The brace after a list of statements or members. -/
  | closeBlock
  deriving Repr

namespace Piece

/-- The text written so far and what is known of its end. -/
structure Layout where
  text : String
  last : Option Char
  /-- The operator that was written last. -/
  sign : Option String
  /-- The character before that operator. -/
  beforeSign : Option Char
  afterRegex : Bool
  afterWhole : Bool
  /-- Whether a statement has ended without its semicolon. -/
  owesSemicolon : Bool

namespace Layout

def nothing : Layout := ⟨"", none, none, none, false, false, false⟩

def put (l : Layout) (s : String) : Layout :=
  match s.toList.getLast? with
  | none => l
  | some c => { l with text := l.text ++ s, last := some c, sign := none, afterRegex := false,
                       afterWhole := false }

def settle (l : Layout) : Layout :=
  if l.owesSemicolon then { l.put ";" with owesSemicolon := false } else l

/-- Keeps a word apart from a word or regular expression before it. -/
def separateWord (l : Layout) : Layout :=
  if l.afterRegex || l.last.any Text.isNamePart then l.put " " else l

/-- Whether an operator would merge with the one before it. -/
def merges (l : Layout) (next : String) : Bool :=
  match l.sign with
  | some "+" => next == "+" || next == "++"
  | some "-" => next == "-" || next == "--"
  | some "--" => next == ">"
  | some "!" => next == "--" && l.beforeSign == some '<'
  | _ => false

/-- Keeps an operator apart from the one before it. -/
def separateSign (l : Layout) (next : String) : Layout :=
  if l.merges next then l.put " " else l

/-- Whether a regular expression must be kept apart from the character before it. -/
def joinsRegex (l : Layout) (pattern : String) : Bool :=
  match l.last with
  | some '/' => true
  | some '<' => (pattern.toList.take 6).map Char.toLower == ['s', 'c', 'r', 'i', 'p', 't']
  | _ => false

def add (style : Style) (l : Layout) : Piece → Layout
  | .word s => l.settle.separateWord.put s
  | .whole s => { l.settle.separateWord.put s with afterWhole := true }
  | .text s => l.settle.put s
  | .sign s =>
      let l := l.settle.separateSign s
      { l.put s with sign := some s, beforeSign := l.last }
  | .beforeOperand s => l.settle.separateSign s
  | .dot =>
      let l := l.settle
      if l.afterWhole then l.put " ." else l.put "."
  | .regex pattern flags =>
      let l := l.settle
      let l := if l.joinsRegex pattern then l.put " " else l
      { l.put ("/" ++ pattern ++ "/" ++ flags) with afterRegex := true }
  | .gap => if style == .readable then l.put " " else l
  | .space => l.settle.put " "
  | .compactSpace => if style == .compact then l.settle.put " " else l
  | .indent n => if style == .readable then l.put (String.ofList (List.replicate n '\t')) else l
  | .newline => if style == .readable then l.put "\n" else l
  | .statementEnd =>
      if style == .readable then l.put ";\n" else { l with owesSemicolon := true }
  | .closeBlock => { l.put "\x7d" with owesSemicolon := false }

end Layout

def render (style : Style) (ps : List Piece) : String :=
  (ps.foldl (Layout.add style) Layout.nothing).settle.text

end Piece

end DefineBundle.Script
