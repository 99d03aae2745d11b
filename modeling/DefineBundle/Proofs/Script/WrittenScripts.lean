import DefineBundle.Proofs.Script.PlainScripts
import DefineBundle.Proofs.Script.Writing

/-!
# Plain scripts as text

Pieces of text that are read as statements are put together to a script. The names and literals of a
statement may come from anywhere: a text between quotes is read as the text that it is written for.
-/
namespace DefineBundle.Script

open DefineBundle.Script.Tree DefineBundle.Text

theorem spellAll?_singleton {t : Tree} {i : List Item} (h : spell? t = some i) :
    spellAll? [t] = some [i] :=
  spellAll?_cons.mpr ⟨h, rfl⟩

theorem spellAll?_append {ts us : List Tree} {is js : List (List Item)}
    (ht : spellAll? ts = some is) (hu : spellAll? us = some js) :
    spellAll? (ts ++ us) = some (is ++ js) := by
  induction ts generalizing is with
  | nil =>
      cases ht
      exact hu
  | cons t ts ih =>
      obtain ⟨i, is, hi, his, rfl⟩ := exists_of_spellAll?_cons ht
      exact spellAll?_cons.mpr ⟨hi, ih his⟩

theorem spellAll?_map {α : Type} {f : α → Tree} {g : α → List Item}
    (h : ∀ a, spell? (f a) = some (g a)) (as : List α) :
    spellAll? (as.map f) = some (as.map g) := by
  induction as with
  | nil => rfl
  | cons a as ih => exact spellAll?_cons.mpr ⟨h a, ih⟩

/-- Wherever it stands and whatever follows it, the text is read as these statements. -/
def WritesStatements (w : List Char) (ts : List Tree) : Prop :=
  ∃ is, spellAll? ts = some is ∧ ts.all isStatement = true ∧ Writes w is.flatten

namespace WritesStatements

variable {v w : List Char} {ts us : List Tree}

theorem append (hv : WritesStatements v ts) (hw : WritesStatements w us) :
    WritesStatements (v ++ w) (ts ++ us) := by
  obtain ⟨is, his, hts, hv⟩ := hv
  obtain ⟨js, hjs, hus, hw⟩ := hw
  refine ⟨is ++ js, spellAll?_append his hjs, by rw [List.all_append, hts, hus]; rfl, ?_⟩
  rw [List.flatten_append]
  exact hv.append hw

theorem pad (h : WritesStatements w ts) (space : List Char) (hspace : space.all isPad = true) :
    WritesStatements (space ++ w) ts := by
  obtain ⟨is, his, hts, hw⟩ := h
  exact ⟨is, his, hts, hw.pad hspace⟩

theorem singleton {t : Tree} {is : List Item} (h : spell? t = some is)
    (ht : t.isStatement = true) (hw : Writes w is) : WritesStatements w [t] := by
  refine ⟨[is], spellAll?_singleton h, by rw [List.all_cons, ht]; rfl, ?_⟩
  rwa [List.flatten_singleton]

end WritesStatements

theorem writes_commas {ws : List (List Char)} {iss : List (List Item)}
    (h : List.Forall₂ Writes ws iss) (hne : ws ≠ []) :
    Writes (joinWith [','] ws) (commas iss) := by
  have hcomma : Writes [','] [.mark .comma] := writes_of_readsAs (by decide) (by decide)
  induction h with
  | nil => exact absurd rfl hne
  | @cons w is ws iss hw hws ih =>
      cases hws with
      | nil => exact hw
      | cons hw' hws' =>
          have hrest := (hw.append hcomma).append (ih (by simp))
          simpa [joinWith, commas] using hrest

def Tree.ofName (n : String) : Tree :=
  leaf (.identifier n)

def Tree.ofText (v : String) : Tree :=
  leaf (.string v false)

/-- The statement that calls a function by its name. -/
def callStatement (f : String) (args : List Tree) : Tree :=
  node .expression [node (.call false false) (ofName f :: args)]

theorem spell?_ofName {n : String} (hn : isPlainName n = true) :
    spell? (ofName n) = some [.word n] :=
  spell?_of_spells (.identifier hn)

theorem spell?_ofText (v : String) : spell? (ofText v) = some [.string v false] :=
  spell?_of_spells (.string v false)

theorem writesStatements_call {f : String} {args : List Tree} {is : List (List Item)}
    {w : List Char} (hf : isPlainName f = true) (hs : spellAll? args = some is)
    (hargs : args.all isExpression = true)
    (hw : Writes w ([.word f, .mark .parenOpen] ++ commas is ++
      [.mark .parenClose, .mark .semicolon])) : WritesStatements w [callStatement f args] := by
  have hcall := spell?_of_spells (.call (spell?_ofName hf) hs rfl hargs)
  refine .singleton (spell?_of_spells (.expression hcall rfl hf)) rfl ?_
  simpa using hw

theorem writes_jsonText (v : String) : Writes (Json.Text.string v) [.string v false] := by
  have hw := writes_string (.inr rfl) (Literal.content?_flatMap_escapeChar v.toList)
  rwa [String.ofList_toList] at hw

theorem writes_encode (v : String) :
    Writes ('\'' :: (SingleQuoted.encode v.toList ++ ['\''])) [.string v false] := by
  have hw := writes_string (.inl rfl) (Literal.content?_encode v.toList)
  rwa [String.ofList_toList] at hw

theorem skip_lineComment {line : List Char} (h : ∀ c ∈ line, isLineEnd c = false) (g : Gap)
    (rest : List Char) : Trivia.skip .lineComment g (line ++ '\n' :: rest) =
      Trivia.skip .between { g with isFresh := true } rest := by
  induction line with
  | nil => rfl
  | cons c line ih =>
      rw [List.forall_mem_cons] at h
      rw [List.cons_append, Trivia.skip, if_neg (by simp [h.1]), ih h.2]

/-- A header of space and comments, statements, and space and comments behind them make a script. -/
theorem parse?_of_writesStatements {header body tail : List Char} {ts : List Tree} {g : Gap}
    (hheader : ∀ cs, Trivia.skip .between ⟨true, false, false⟩ (header ++ cs) =
      Trivia.skip .between ⟨true, false, false⟩ cs)
    (hfirst : ∀ cs, hashbang (header ++ cs) = (none, header ++ cs))
    (hbody : WritesStatements body ts)
    (htail : Trivia.skip .between ⟨false, false, false⟩ tail = some (g, [])) :
    parse? (String.ofList (header ++ (body ++ tail))) = some (node (.program none []) ts) := by
  obtain ⟨is, his, hts, hlength, hwrites⟩ := hbody
  let origin : Cursor := ⟨.finish, ⟨true, false, false⟩, [], [],
    Text.PlainAscii.extent (header ++ (body ++ tail)) + 2, 0, []⟩
  have hend : Parser.moved origin false tail =
      some { origin with token := .finish, gap := g, here := [], rest := [] } := by
    rw [Parser.moved, htail]
    rfl
  obtain ⟨c, hc, halong⟩ := hwrites origin tail _ hend true
  have hstart : Parser.start (header ++ (body ++ tail)) = some c := by
    rw [← hc, Parser.start, Parser.moved, Parser.moved, hheader]
  refine parse?_of_along (by rwa [String.toList_ofList]) (by rw [String.toList_ofList, hfirst]) his
    hts halong rfl ?_
  rw [String.toList_ofList, List.length_append, List.length_append]
  omega

end DefineBundle.Script
