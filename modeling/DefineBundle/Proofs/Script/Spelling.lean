import DefineBundle.Proofs.Script.Reading
import Mathlib.Data.List.Forall2

/-!
# The items of a plain script

A plain script is made of functions, conditions, loops, assignments and calls, with every statement
closed by its own semicolon or brace. Its items are put together from those of its parts, and where
an operand would need parentheses to be read as it is, there are no items at all.
-/
namespace DefineBundle.Script

open DefineBundle.Script.Tree DefineBundle.Script.Parser

/-- Names that are never read as anything else. -/
def isPlainName (n : String) : Bool :=
  !(reservedWords ++ ["async", "await", "let", "using", "yield"]).contains n

/-- Operators whose operands may be any of the groups that bind more strongly. -/
def BinaryOp.isPlain (op : BinaryOp) : Bool :=
  !([.coalesce, .instanceOf, .inside, .pow].contains op)

/-- The groups from the one of an operator on. -/
def groupsFrom (op : BinaryOp) : List (List BinaryOp) :=
  operatorGroups.dropWhile fun ops => !ops.contains op

/-- What holds an expression together at its root. -/
inductive Bond
  /-- Nothing looser than a member or a call. -/
  | chain
  /-- An operator with one operand. -/
  | prefixed
  | binary (op : BinaryOp)
  | assigned
  deriving DecidableEq, Repr

namespace Tree

/-- What holds a plain expression together. -/
def bond? : Tree → Option Bond
  | node (.function _ _ _) (name :: _) => if name.isMissing then some .chain else none
  | node (.identifier _) _ | node .thisRef _ | node .nullLiteral _ | node (.boolean _) _
  | node (.number _) _ | node (.string _ _) _ | node (.regex _ _) _ | node .array _ | node .object _
  | node .parens _ | node (.member _ _) _ | node (.index _) _ | node (.call _ _) _ => some .chain
  | node (.unary _) _ | node (.update _ _) _ => some .prefixed
  | node (.binary op) _ => some (.binary op)
  | node (.assign _) _ => some .assigned
  | _ => none

def isExpression (t : Tree) : Bool :=
  t.bond?.isSome

def isChain (t : Tree) : Bool :=
  t.bond? == some .chain

/-- Whether an expression needs no parentheses next to an operator of looser groups. -/
def isOperand (groups : List (List BinaryOp)) (t : Tree) : Bool :=
  match t.bond? with
  | some .chain | some .prefixed => true
  | some (.binary op) => groups.any (·.contains op)
  | _ => false

/-- Whether an expression is a place outside parentheses. -/
def isTarget (t : Tree) : Bool :=
  t.isChain && isPlace t && t.form != .parens

def isName : Tree → Bool
  | node (.identifier _) _ => true
  | _ => false

def isStatement : Tree → Bool
  | node (.declaration _) _ | node .expression _ | node .block _ | node .ifElse _
  | node .forLoop _ | node .throwing _ => true
  | node (.function _ _ _) (name :: _) => !name.isMissing
  | _ => false

def isProperty : Tree → Bool
  | node (.property _) _ => true
  | _ => false

def isDeclarator : Tree → Bool
  | node .declarator _ => true
  | _ => false

end Tree

def commas : List (List Item) → List Item
  | [] => []
  | [i] => i
  | i :: j :: js => i ++ .mark .comma :: commas (j :: js)

/-- The token of an operator in front of its operand. -/
def UnaryOp.token : UnaryOp → Token
  | .minus => .operator .sub
  | .plus => .operator .add
  | .not => .not
  | .complement => .complement
  | .typeof => .name "typeof" false
  | .void => .name "void" false
  | .delete => .name "delete" false

/-- The directives of a function, which are written as they read. -/
def directiveItems (ds : List String) : List Item :=
  ds.flatMap fun raw => [.token (.string raw false raw), .mark .semicolon]

/-- Whether an expression with these items may start a statement. -/
def opensStatement : List Item → Bool
  | .token (.name n false) :: _ => isPlainName n
  | .token (.mark .parenOpen) :: _ => true
  | _ => false

/-- Items that are only good under a condition. -/
def itemsIf (b : Bool) (is : List Item) : Option (List Item) :=
  if b then some is else none

theorem itemsIf_eq_some {b : Bool} {is js : List Item} :
    itemsIf b is = some js ↔ b = true ∧ is = js := by
  simp [itemsIf]

/-- The items of a node, given those of its parts. -/
def compose (f : Form) (ps : List Tree) (is : List (List Item)) : Option (List Item) :=
  match f, ps, is with
  | .absent, [], [] => some []
  | .identifier n, [], [] => itemsIf (isPlainName n) [.word n]
  | .thisRef, [], [] => some [.word "this"]
  | .nullLiteral, [], [] => some [.word "null"]
  | .boolean b, [], [] => some [.word (if b then "true" else "false")]
  | .number v, [], [] => some [.token (.number v)]
  | .string v l, [], [] => some [.string v l]
  | .regex p f, [], [] => some [.regex p f]
  | .array, ts, is =>
      itemsIf (ts.all isExpression) (.mark .bracketOpen :: (commas is ++ [.mark .bracketClose]))
  | .object, ts, is =>
      itemsIf (ts.all isProperty) (.mark .braceOpen :: (commas is ++ [.mark .braceClose]))
  | .property .plain, [node (.string v l) [], e], [_, i] =>
      itemsIf e.isExpression (.string v l :: .mark .colon :: i)
  | .parens, [e], [i] =>
      itemsIf e.isExpression (.mark .parenOpen :: (i ++ [.mark .parenClose]))
  | .member false n, [e], [i] => itemsIf e.isChain (i ++ [.mark .dot, .word n])
  | .index false, [e, k], [i, j] =>
      itemsIf (e.isChain && k.isExpression)
        (i ++ .mark .bracketOpen :: (j ++ [.mark .bracketClose]))
  | .call false false, e :: args, i :: js =>
      itemsIf (e.isChain && args.all isExpression)
        (i ++ .mark .parenOpen :: (commas js ++ [.mark .parenClose]))
  | .unary op, [e], [i] => itemsIf (e.isOperand []) (.token op.token :: i)
  | .update op true, [e], [i] =>
      itemsIf (e.isOperand [] && isPlace e) (.token (.update op) :: i)
  | .update op false, [e], [i] =>
      itemsIf (e.isChain && isPlace e) (i ++ [.glue, .token (.update op)])
  | .binary op, [l, r], [i, j] =>
      itemsIf (op.isPlain && l.isOperand (groupsFrom op) && r.isOperand (groupsFrom op).tail)
        (i ++ .token (.operator op) :: j)
  | .assign op, [l, r], [i, j] =>
      itemsIf (l.isTarget && r.isExpression) (i ++ .token (.assign op) :: j)
  | .function false false false, [name, node .parameters _, node (.body _) _], [n, ps, b] =>
      itemsIf (name.isMissing || name.isName) (.word "function" :: (n ++ .mark .parenOpen ::
        (ps ++ .mark .parenClose :: .mark .braceOpen :: (b ++ [.mark .braceClose]))))
  | .parameters, ts, is => itemsIf (ts.all isName) (commas is)
  | .body ds, ts, is => itemsIf (ts.all isStatement) (directiveItems ds ++ is.flatten)
  | .declarator, [t], [i] => itemsIf t.isName i
  | .declarator, [t, v], [i, j] =>
      itemsIf (t.isName && v.isExpression) (i ++ .token (.assign none) :: j)
  | .declaration .var, t :: ts, is =>
      itemsIf ((t :: ts).all isDeclarator) (.word "var" :: (commas is ++ [.mark .semicolon]))
  | .expression, [e], [i] =>
      itemsIf (e.isExpression && opensStatement i) (i ++ [.mark .semicolon])
  | .block, ts, is =>
      itemsIf (ts.all isStatement) (.mark .braceOpen :: (is.flatten ++ [.mark .braceClose]))
  | .ifElse, [t, b], [i, j] =>
      itemsIf (t.isExpression && b.isStatement)
        (.word "if" :: .mark .parenOpen :: (i ++ .mark .parenClose :: j))
  | .forLoop, [node (.declaration .var) _, t, u, b], [h, i, j, k] =>
      itemsIf (t.isExpression && u.isExpression && b.isStatement)
        (.word "for" :: .mark .parenOpen :: (h ++ (i ++ .mark .semicolon ::
          (j ++ .mark .parenClose :: k))))
  | .throwing, [e], [i] =>
      itemsIf e.isExpression (.word "throw" :: .glue :: (i ++ [.mark .semicolon]))
  | _, _, _ => none

mutual

/-- The items of a plain script. -/
def spell? : Tree → Option (List Item)
  | node f ps => (spellAll? ps).bind (compose f ps)
termination_by structural t => t

def spellAll? : List Tree → Option (List (List Item))
  | [] => some []
  | t :: ts => (spell? t).bind fun i => (spellAll? ts).map (i :: ·)
termination_by structural ts => ts

end

/-- The ways in which items are put together, one for each form. -/
inductive Spells : Tree → List Item → Prop
  | absent : Spells missing []
  | identifier {n : String} (hn : isPlainName n = true) : Spells (leaf (.identifier n)) [.word n]
  | thisRef : Spells (leaf .thisRef) [.word "this"]
  | nullLiteral : Spells (leaf .nullLiteral) [.word "null"]
  | boolean (b : Bool) : Spells (leaf (.boolean b)) [.word (if b then "true" else "false")]
  | number (v : Numeral) : Spells (leaf (.number v)) [.token (.number v)]
  | string (v : String) (l : Bool) : Spells (leaf (.string v l)) [.string v l]
  | regex (p f : String) : Spells (leaf (.regex p f)) [.regex p f]
  | array {ts : List Tree} {is : List (List Item)} (hs : spellAll? ts = some is)
      (ht : ts.all isExpression = true) :
      Spells (node .array ts) (.mark .bracketOpen :: (commas is ++ [.mark .bracketClose]))
  | object {ts : List Tree} {is : List (List Item)} (hs : spellAll? ts = some is)
      (ht : ts.all isProperty = true) :
      Spells (node .object ts) (.mark .braceOpen :: (commas is ++ [.mark .braceClose]))
  | property {v : String} {l : Bool} {e : Tree} {i : List Item} (he : spell? e = some i)
      (ht : e.isExpression = true) :
      Spells (node (.property .plain) [leaf (.string v l), e]) (.string v l :: .mark .colon :: i)
  | parens {e : Tree} {i : List Item} (he : spell? e = some i) (ht : e.isExpression = true) :
      Spells (node .parens [e]) (.mark .parenOpen :: (i ++ [.mark .parenClose]))
  | member {n : String} {e : Tree} {i : List Item} (he : spell? e = some i)
      (ht : e.isChain = true) : Spells (node (.member false n) [e]) (i ++ [.mark .dot, .word n])
  | index {e k : Tree} {i j : List Item} (he : spell? e = some i) (hk : spell? k = some j)
      (ht : e.isChain = true) (hu : k.isExpression = true) :
      Spells (node (.index false) [e, k])
        (i ++ .mark .bracketOpen :: (j ++ [.mark .bracketClose]))
  | call {e : Tree} {args : List Tree} {i : List Item} {js : List (List Item)}
      (he : spell? e = some i) (hs : spellAll? args = some js) (ht : e.isChain = true)
      (hu : args.all isExpression = true) :
      Spells (node (.call false false) (e :: args))
        (i ++ .mark .parenOpen :: (commas js ++ [.mark .parenClose]))
  | unary {op : UnaryOp} {e : Tree} {i : List Item} (he : spell? e = some i)
      (ht : e.isOperand [] = true) : Spells (node (.unary op) [e]) (.token op.token :: i)
  | updated {op : UpdateOp} {e : Tree} {i : List Item} (he : spell? e = some i)
      (ht : e.isOperand [] = true) (hp : isPlace e = true) :
      Spells (node (.update op true) [e]) (.token (.update op) :: i)
  | updating {op : UpdateOp} {e : Tree} {i : List Item} (he : spell? e = some i)
      (ht : e.isChain = true) (hp : isPlace e = true) :
      Spells (node (.update op false) [e]) (i ++ [.glue, .token (.update op)])
  | binary {op : BinaryOp} {l r : Tree} {i j : List Item} (hl : spell? l = some i)
      (hr : spell? r = some j) (hop : op.isPlain = true) (ht : l.isOperand (groupsFrom op) = true)
      (hu : r.isOperand (groupsFrom op).tail = true) :
      Spells (node (.binary op) [l, r]) (i ++ .token (.operator op) :: j)
  | assign {op : Option BinaryOp} {l r : Tree} {i j : List Item} (hl : spell? l = some i)
      (hr : spell? r = some j) (ht : l.isTarget = true) (hu : r.isExpression = true) :
      Spells (node (.assign op) [l, r]) (i ++ .token (.assign op) :: j)
  | function {name : Tree} {params body : List Tree} {ds : List String} {n i j : List Item}
      (hn : spell? name = some n) (hs : spell? (node .parameters params) = some i)
      (hb : spell? (node (.body ds) body) = some j)
      (ht : (name.isMissing || name.isName) = true) :
      Spells (node (.function false false false) [name, node .parameters params,
          node (.body ds) body])
        (.word "function" :: (n ++ .mark .parenOpen ::
          (i ++ .mark .parenClose :: .mark .braceOpen :: (j ++ [.mark .braceClose]))))
  | parameters {ts : List Tree} {is : List (List Item)} (hs : spellAll? ts = some is)
      (ht : ts.all isName = true) : Spells (node .parameters ts) (commas is)
  | body {ds : List String} {ts : List Tree} {is : List (List Item)} (hs : spellAll? ts = some is)
      (ht : ts.all isStatement = true) :
      Spells (node (.body ds) ts) (directiveItems ds ++ is.flatten)
  | declarator {t : Tree} {i : List Item} (hi : spell? t = some i) (ht : t.isName = true) :
      Spells (node .declarator [t]) i
  | valued {t v : Tree} {i j : List Item} (hi : spell? t = some i) (hv : spell? v = some j)
      (ht : t.isName = true) (hu : v.isExpression = true) :
      Spells (node .declarator [t, v]) (i ++ .token (.assign none) :: j)
  | declaration {t : Tree} {ts : List Tree} {is : List (List Item)}
      (hs : spellAll? (t :: ts) = some is) (ht : (t :: ts).all isDeclarator = true) :
      Spells (node (.declaration .var) (t :: ts))
        (.word "var" :: (commas is ++ [.mark .semicolon]))
  | expression {e : Tree} {i : List Item} (he : spell? e = some i) (ht : e.isExpression = true)
      (ho : opensStatement i = true) : Spells (node .expression [e]) (i ++ [.mark .semicolon])
  | block {ts : List Tree} {is : List (List Item)} (hs : spellAll? ts = some is)
      (ht : ts.all isStatement = true) :
      Spells (node .block ts) (.mark .braceOpen :: (is.flatten ++ [.mark .braceClose]))
  | ifElse {t b : Tree} {i j : List Item} (hi : spell? t = some i) (hj : spell? b = some j)
      (ht : t.isExpression = true) (hu : b.isStatement = true) :
      Spells (node .ifElse [t, b])
        (.word "if" :: .mark .parenOpen :: (i ++ .mark .parenClose :: j))
  | forLoop {ds : List Tree} {t u b : Tree} {h i j k : List Item}
      (hh : spell? (node (.declaration .var) ds) = some h) (hi : spell? t = some i)
      (hj : spell? u = some j) (hk : spell? b = some k) (ht : t.isExpression = true)
      (hu : u.isExpression = true) (hv : b.isStatement = true) :
      Spells (node .forLoop [node (.declaration .var) ds, t, u, b])
        (.word "for" :: .mark .parenOpen :: (h ++ (i ++ .mark .semicolon ::
          (j ++ .mark .parenClose :: k))))
  | throwing {e : Tree} {i : List Item} (he : spell? e = some i) (ht : e.isExpression = true) :
      Spells (node .throwing [e]) (.word "throw" :: .glue :: (i ++ [.mark .semicolon]))

theorem spellAll?_cons {t : Tree} {ts : List Tree} {i : List Item} {is : List (List Item)} :
    spellAll? (t :: ts) = some (i :: is) ↔ spell? t = some i ∧ spellAll? ts = some is := by
  rw [spellAll?]
  cases spell? t <;> cases spellAll? ts <;> simp

theorem exists_of_spellAll?_cons {t : Tree} {ts : List Tree} {iss : List (List Item)}
    (h : spellAll? (t :: ts) = some iss) :
    ∃ i is, spell? t = some i ∧ spellAll? ts = some is ∧ iss = i :: is := by
  cases iss with
  | nil =>
      rw [spellAll?] at h
      cases ht : spell? t <;> cases hts : spellAll? ts <;> simp [ht, hts] at h
  | cons i is =>
      rw [spellAll?_cons] at h
      exact ⟨i, is, h.1, h.2, rfl⟩

theorem spells_of_spell? {t : Tree} {is : List Item} (h : spell? t = some is) : Spells t is := by
  obtain ⟨f, ps⟩ := t
  rw [spell?] at h
  obtain ⟨iss, hs, h⟩ := Option.bind_eq_some_iff.mp h
  unfold compose at h
  split at h <;>
    simp only [itemsIf_eq_some, Bool.and_eq_true, Option.some.injEq, reduceCtorEq] at h
  all_goals
    try obtain ⟨ht, rfl⟩ := h
    try obtain rfl := h
    try simp only [spellAll?_cons] at hs
    constructor <;> simp_all only

theorem spell?_of_spells {t : Tree} {is : List Item} (h : Spells t is) : spell? t = some is := by
  cases h
  all_goals
    simp_all only [leaf, spell?, spellAll?, compose, itemsIf, Option.bind_some, Option.map_some,
      Bool.and_self, if_true]

theorem forall₂_of_spellAll? {p : Tree → Bool} {ts : List Tree} {iss : List (List Item)}
    (h : spellAll? ts = some iss) (hp : ts.all p = true) :
    List.Forall₂ (fun t i => spell? t = some i ∧ p t = true ∧ i ∈ iss) ts iss := by
  induction ts generalizing iss with
  | nil =>
      cases h
      exact .nil
  | cons t ts ih =>
      obtain ⟨i, js, hi, hjs, rfl⟩ := exists_of_spellAll?_cons h
      rw [List.all_cons, Bool.and_eq_true] at hp
      refine .cons ⟨hi, hp.1, List.mem_cons_self⟩ ((ih hjs hp.2).imp ?_)
      exact fun _ _ ⟨hi, hp, hmem⟩ => ⟨hi, hp, List.mem_cons_of_mem _ hmem⟩

theorem length_le_commas {i : List Item} {iss : List (List Item)} (h : i ∈ iss) :
    i.length ≤ (commas iss).length := by
  fun_induction commas iss with
  | case1 => cases h
  | case2 j => exact Nat.le_of_eq (congrArg List.length (List.mem_singleton.mp h))
  | case3 j k js ih =>
      rw [List.length_append, List.length_cons]
      rcases List.mem_cons.mp h with rfl | h
      · omega
      · have := ih h
        omega

theorem length_le_length_commas (iss : List (List Item)) :
    iss.length ≤ (commas iss).length + 1 := by
  fun_induction commas iss with
  | case1 => simp
  | case2 j => simp
  | case3 j k js ih =>
      simp only [List.length_append, List.length_cons] at ih ⊢
      omega

/-- Whether a chain of members and calls may begin with the token. -/
def Token.opensChain : Token → Bool
  | .name w e => !e && !(["else", "typeof", "void", "delete"].contains w)
  | .number _ | .string _ _ _ => true
  | .operator op => op == .div
  | .mark m => [.parenOpen, .bracketOpen, .braceOpen].contains m
  | _ => false

/-- Whether an expression may begin with the token. -/
def Token.opens : Token → Bool
  | .name w e => !e && w != "else"
  | .number _ | .string _ _ _ | .not | .complement | .update _ => true
  | .operator op => [.sub, .add, .div].contains op
  | .mark m => [.parenOpen, .bracketOpen, .braceOpen].contains m
  | _ => false

/-- Whether a statement may begin with the token. -/
def Token.begins : Token → Bool
  | .name w e => !e && w != "else"
  | .mark m => [.parenOpen, .braceOpen].contains m
  | _ => false

namespace Item

def opensChain : Item → Bool
  | token t => t.opensChain
  | string _ _ | regex _ _ => true
  | glue => false

def opens : Item → Bool
  | token t => t.opens
  | string _ _ | regex _ _ => true
  | glue => false

end Item

theorem ne_of_isPlainName {n w : String} (hn : isPlainName n = true)
    (hw : isPlainName w = false) : n ≠ w := by
  rintro rfl
  rw [hn] at hw
  cases hw

theorem opensChain_of_isPlainName {n : String} (h : isPlainName n = true) :
    (Token.name n false).opensChain = true := by
  have he : ∀ w, isPlainName w = false → n ≠ w := fun w => ne_of_isPlainName h
  simp [Token.opensChain, he "else" (by decide), he "typeof" (by decide),
    he "void" (by decide), he "delete" (by decide)]

theorem opens_of_opensChain {t : Token} (h : t.opensChain = true) : t.opens = true := by
  cases t with
  | name w e => simp_all [Token.opensChain, Token.opens]
  | mark m => exact h
  | operator op => cases op <;> simp_all [Token.opensChain, Token.opens]
  | number | string => rfl
  | _ => cases h

theorem begins_of_isPlainName {n : String} (h : isPlainName n = true) :
    (Token.name n false).begins = true :=
  opens_of_opensChain (opensChain_of_isPlainName h)

theorem opens_of_begins {t : Token} (h : t.begins = true) : t.opens = true := by
  cases t with
  | name w e => exact h
  | mark m => cases m <;> simp_all [Token.begins, Token.opens]
  | _ => cases h

theorem isExpression_of_isChain {t : Tree} (h : t.isChain = true) : t.isExpression = true := by
  rw [isChain, beq_iff_eq] at h
  rw [isExpression, h, Option.isSome_some]

theorem isExpression_of_isOperand {groups : List (List BinaryOp)} {t : Tree}
    (h : t.isOperand groups = true) : t.isExpression = true := by
  unfold isOperand at h
  unfold isExpression
  split at h <;> simp_all

theorem isChain_of_isTarget {t : Tree} (h : t.isTarget = true) : t.isChain = true := by
  rw [isTarget, Bool.and_eq_true, Bool.and_eq_true] at h
  exact h.1.1

/-- What is written of an expression begins with an item that may open one. -/
theorem exists_opening {t : Tree} {is : List Item} (h : spell? t = some is)
    (hkind : t.isExpression = true) :
    ∃ i rest, is = i :: rest ∧ i.opens = true ∧ (t.isChain = true → i.opensChain = true) := by
  -- the items of the leftmost part come first, and there are fewer of them
  induction hn : is.length using Nat.strongRecOn generalizing t is with
  | _ n ih =>
  subst hn
  have hchain : ∀ {e : Tree} {i js : List Item}, spell? e = some i → e.isChain = true →
      js ≠ [] → is = i ++ js → ∃ i rest, is = i :: rest ∧ i.opens = true ∧
        (t.isChain = true → i.opensChain = true) := by
    rintro e i js he hchain hjs rfl
    have := List.length_pos_iff.mpr hjs
    obtain ⟨i, rest, rfl, hi, hi'⟩ :=
      ih i.length (by rw [List.length_append]; omega) he (isExpression_of_isChain hchain) rfl
    exact ⟨i, rest ++ js, rfl, hi, fun _ => hi' hchain⟩
  cases spells_of_spell? h with
  | identifier hn =>
      exact ⟨_, _, rfl, opens_of_opensChain (opensChain_of_isPlainName hn),
        fun _ => opensChain_of_isPlainName hn⟩
  | boolean b => cases b <;> exact ⟨_, _, rfl, by decide, fun _ => by decide⟩
  | @unary op => cases op <;> exact ⟨_, _, rfl, by decide, fun h => by cases h⟩
  | updated => exact ⟨_, _, rfl, rfl, fun h => by cases h⟩
  | member he ht | index he _ ht _ | call he _ ht _ | updating he ht _ =>
      exact hchain he ht (by simp) rfl
  | assign he _ ht _ => exact hchain he (isChain_of_isTarget ht) (by simp) rfl
  | binary he _ _ ht _ =>
      obtain ⟨i, rest, rfl, hi, -⟩ := ih _ (by simp) he (isExpression_of_isOperand ht) rfl
      exact ⟨i, _, rfl, hi, fun h => by cases h⟩
  | number | string | regex => exact ⟨_, _, rfl, rfl, fun _ => rfl⟩
  | thisRef | nullLiteral | array | object | parens | function =>
      exact ⟨_, _, rfl, by decide, fun _ => by decide⟩
  | _ => simp [isExpression, bond?] at hkind

/-- What is written of a statement begins with a token that may begin one. -/
theorem exists_beginning {t : Tree} {is : List Item} (h : spell? t = some is)
    (hkind : t.isStatement = true) : ∃ k rest, is = .token k :: rest ∧ k.begins = true := by
  cases spells_of_spell? h with
  | expression _ _ ho =>
      unfold opensStatement at ho
      split at ho
      · exact ⟨_, _, rfl, begins_of_isPlainName ho⟩
      · exact ⟨_, _, rfl, rfl⟩
      · cases ho
  | function | declaration | block | ifElse | forLoop | throwing =>
      exact ⟨_, _, rfl, by decide⟩
  | _ => simp [isStatement] at hkind

end DefineBundle.Script
