import DefineBundle.Proofs.Script.PlainForm.Characters

/-!
# Tokens and trees of plain forms

What a script keeps as it is written, the raw text of a literal or a directive, is in its plain form
the plain form of that text, and names that are not plain have escapes. All else of the tokens and
the tree stays as it is.
-/
namespace DefineBundle.Script

open DefineBundle.Script.PlainForm

namespace PlainForm

open DefineBundle.Text.PlainAscii

/-- Whether any of the characters is not plain. -/
def foreign (cs : List Char) : Bool :=
  cs.any fun c => !isPlain c

/-- The plain form of a text that is kept as it is written, where that says the same. -/
def respell (raw : String) : String :=
  if isSteady false raw.toList then encode raw else raw

theorem respell_ofList {cs : List Char} (h : isSteady false cs = true) :
    respell (String.ofList cs) = String.ofList (plain cs) := by
  rw [respell, String.toList_ofList, if_pos h, encode, String.toList_ofList]
  rfl

end PlainForm

def Token.respelled : Token → Token
  | name t e => name t (e || foreign t.toList)
  | string v l raw => string v l (respell raw)
  | t => t

def Form.respelled : Form → Form
  | regex pattern flags => regex (respell pattern) flags
  | template chunks => template (chunks.map respell)
  | body directives => body (directives.map respell)
  | program hashbang directives => program (hashbang.map respell) (directives.map respell)
  | f => f

mutual

def Tree.respelled : Tree → Tree
  | node f ps => node f.respelled (respelledAll ps)
termination_by structural t => t

def Tree.respelledAll : List Tree → List Tree
  | [] => []
  | t :: ts => t.respelled :: respelledAll ts
termination_by structural ts => ts

end

theorem Tree.respelledAll_eq_map (ts : List Tree) : respelledAll ts = ts.map respelled := by
  induction ts with
  | nil => rfl
  | cons t ts ih => rw [respelledAll, ih, List.map_cons]

@[simp]
theorem Tree.respelled_node (f : Form) (ps : List Tree) :
    (node f ps).respelled = node f.respelled (ps.map respelled) := by
  rw [respelled, respelledAll_eq_map]

end DefineBundle.Script
