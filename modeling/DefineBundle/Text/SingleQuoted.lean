/-!
# Text between single quotes

The writing of text inside a single-quoted literal, and its reading. Quotes, backslashes and
carets take a backslash, line breaks and tabs are written by a letter, and everything else stands
as it is. Reading undoes writing; it also accepts a backslash before any other character.
-/
namespace DefineBundle.Text.SingleQuoted

def encodeChar (c : Char) : List Char :=
  match c with
  | '\\' => ['\\', '\\']
  | '\'' => ['\\', '\'']
  | '"' => ['\\', '"']
  | '^' => ['\\', '^']
  | '\n' => ['\\', 'n']
  | '\t' => ['\\', 't']
  | '\r' => ['\\', 'r']
  | _ => [c]

def encode (cs : List Char) : List Char :=
  cs.flatMap encodeChar

/-- The character that a backslash before a character stands for. -/
def escaped (c : Char) : Char :=
  match c with
  | 'n' => '\n'
  | 't' => '\t'
  | 'r' => '\r'
  | _ => c

/-- The text that is written in a literal; a backslash at the very end stands for itself. -/
def decode : List Char → List Char
  | [] => []
  | ['\\'] => ['\\']
  | '\\' :: c :: cs => escaped c :: decode cs
  | c :: cs => c :: decode cs

theorem encode_cons (c : Char) (cs : List Char) : encode (c :: cs) = encodeChar c ++ encode cs :=
  rfl

theorem decode_encodeChar_append (c : Char) (cs : List Char) :
    decode (encodeChar c ++ cs) = c :: decode cs := by
  unfold encodeChar
  split
  case h_8 h _ _ _ _ _ _ =>
    rw [List.singleton_append]
    exact decode.eq_4 c cs (fun hc _ => h hc) (fun _ _ hc _ => h hc)
  all_goals simp [decode, escaped]

end DefineBundle.Text.SingleQuoted
