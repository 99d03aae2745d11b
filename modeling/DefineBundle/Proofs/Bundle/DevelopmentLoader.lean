import DefineBundle.Proofs.Bundle.LoaderScript
import DefineBundle.Proofs.Script.WrittenScripts

/-!
# The loader of development bundles in pieces

The loader has a place for the name of the bundle's own file, inside a literal, and a place for code
as its last statement. The text around these two places is plain statements, and all of it except
the header is read the same whatever stands at the places. This is found out by reading the loader.
-/
namespace DefineBundle.Bundle

open DefineBundle.Script DefineBundle.Script.Tree DefineBundle.Text

/-- The loop over all scripts that looks for a name in their addresses. -/
def searchLoop (name : String) : Tree :=
  node .forLoop [
    node (.declaration .var) [node .declarator
      [ofName "i", leaf (.number (Literal.wholeIn 10 ['0']))]],
    node (.binary .less) [ofName "i", node (.member false "length") [ofName "scripts"]],
    node (.update .increment false) [ofName "i"],
    node .block [
      node (.declaration .var) [node .declarator [ofName "src",
        node (.member false "src") [node (.index false) [ofName "scripts", ofName "i"]]]],
      node .ifElse [
        node (.binary .notEqual) [
          node (.call false false) [node (.member false "indexOf") [ofName "src"], ofText name],
          node (.unary .minus) [leaf (.number (Literal.wholeIn 10 ['1']))]],
        node .block [node .expression [node (.assign none) [ofName "baseDir",
          node (.call false false) [node (.member false "substring") [ofName "src"],
            leaf (.number (Literal.wholeIn 10 ['0'])),
            node (.call false false) [node (.member false "lastIndexOf") [ofName "src"],
              ofText "/"]]]]]]]]

/-- The items of the loop in front of the name. -/
def searchFront : List Item := [
  .word "for", .mark .parenOpen, .word "var", .word "i", .token (.assign none),
  .token (.number (Literal.wholeIn 10 ['0'])), .mark .semicolon, .word "i",
  .token (.operator .less), .word "scripts", .mark .dot, .word "length", .mark .semicolon,
  .word "i", .glue, .token (.update .increment), .mark .parenClose, .mark .braceOpen,
  .word "var", .word "src", .token (.assign none), .word "scripts", .mark .bracketOpen, .word "i",
  .mark .bracketClose, .mark .dot, .word "src", .mark .semicolon, .word "if", .mark .parenOpen,
  .word "src", .mark .dot, .word "indexOf", .mark .parenOpen]

def searchBack : List Item := [
  .mark .parenClose, .token (.operator .notEqual), .token (.operator .sub),
  .token (.number (Literal.wholeIn 10 ['1'])), .mark .parenClose, .mark .braceOpen,
  .word "baseDir", .token (.assign none), .word "src", .mark .dot, .word "substring",
  .mark .parenOpen, .token (.number (Literal.wholeIn 10 ['0'])), .mark .comma, .word "src",
  .mark .dot, .word "lastIndexOf", .mark .parenOpen, .string "/" false, .mark .parenClose,
  .mark .parenClose, .mark .semicolon, .mark .braceClose, .mark .braceClose]

theorem spell?_searchLoop (name : String) :
    spell? (searchLoop name) = some (searchFront ++ .string name false :: searchBack) := by
  have hplain : ∀ n ∈ ["i", "scripts", "src", "baseDir"], isPlainName n = true := by decide
  simp only [List.forall_mem_cons] at hplain
  obtain ⟨hi, hscripts, hsrc, hbaseDir, -⟩ := hplain
  simp [searchLoop, searchFront, searchBack, spell?, spellAll?, compose, itemsIf, commas, ofName,
    ofText, leaf, hi, hscripts, hsrc, hbaseDir, isExpression, bond?, isDeclarator, isName, isChain,
    isOperand, isTarget, isStatement, Parser.isPlace, BinaryOp.isPlain,
    opensStatement, UnaryOp.token, form]

/-- The text in front of the literal that holds the name of the bundle's own file. -/
def frontOf (cs : List Char) : List Char :=
  ((splitFirst? ("'/".toList ++ Loader.fileNamePlace) cs).map Prod.fst).getD []

/-- The comments that the loader begins with, and the space behind them. -/
def loaderHeader : List Char :=
  Loader.text (Loader.developmentLines.take 7)

def codeGap : List Char :=
  "\n\n\t".toList

def loaderEnding : List Char :=
  "\n\x7d)(this);\n".toList

/-- The items of the loader up to the literal with the name. -/
def openingItems (setup : List Item) : List Item :=
  [.mark .parenOpen, .word "function", .mark .parenOpen, .word "exports", .mark .parenClose,
    .mark .braceOpen] ++ directiveItems ["use strict"] ++ setup ++ searchFront

/-- What stands between the header and the literal with the name, and between that literal and the
space in front of the code, with the statements around the loop that looks for the name. -/
structure LoaderPieces where
  opening : List Char
  middle : List Char
  setup : List Tree
  functions : List Tree

/-- The statements of a script that is one call of a function written in place. -/
def bodyStatements : Tree → List Tree
  | node _ [node _ [node _ [node _ [node _ [_, _, node _ ts]], _]]] => ts
  | _ => []

/-- The pieces that a loader is found to have. -/
def loaderPieces? (header cs : List Char) : Option LoaderPieces := do
  let (front, back) ← splitFirst? ("'/".toList ++ Loader.fileNamePlace) cs
  let (middle, _) ← splitFirst? (codeGap ++ Loader.codePlace) (back.drop 1)
  let ts := bodyStatements (← scriptOf? cs)
  return ⟨front.drop header.length, middle, ts.take 3, (ts.drop 4).dropLast⟩

/-- The loader is these pieces, with the two places where they are looked for and nowhere else. -/
structure LoaderCut extends LoaderPieces where
  setupItems : List (List Item)
  functionItems : List (List Item)
  front_eq : frontOf Loader.developmentText = loaderHeader ++ opening
  text_eq : Loader.developmentText = frontOf Loader.developmentText ++ '\'' :: '/' ::
    (Loader.fileNamePlace ++ '\'' :: (middle ++ codeGap ++ Loader.codePlace ++ loaderEnding))
  /-- Behind the name, the line ends without another quote. -/
  middle_eq : ∃ rest, middle = ") != -1) \x7b\n".toList ++ rest
  middle_last : middle.getLast? = some ';'
  name_free : occurs Loader.fileNamePlace (loaderHeader ++ opening) = false ∧
    occurs Loader.fileNamePlace (middle ++ codeGap ++ Loader.codePlace ++ loaderEnding) = false
  code_free : occurs Loader.codePlace (loaderHeader ++ opening) = false ∧
    occurs Loader.codePlace (middle ++ codeGap) = false
  setup_spelled : spellAll? setup = some setupItems
  setup_statements : setup.all isStatement = true
  functions_spelled : spellAll? functions = some functionItems
  functions_statements : functions.all isStatement = true
  opening_writes : Writes opening (openingItems setupItems.flatten)
  middle_writes : Writes middle (searchBack ++ functionItems.flatten)

/-- Whether a loader is cut into these pieces. -/
def LoaderPieces.fits (p : LoaderPieces) (header cs : List Char) : Bool :=
  frontOf cs == header ++ p.opening &&
  cs == frontOf cs ++ '\'' :: '/' :: (Loader.fileNamePlace ++
    '\'' :: (p.middle ++ codeGap ++ Loader.codePlace ++ loaderEnding)) &&
  (after? ") != -1) \x7b\n".toList p.middle).isSome &&
  p.middle.getLast? == some ';' &&
  !occurs Loader.fileNamePlace (header ++ p.opening) &&
  !occurs Loader.fileNamePlace (p.middle ++ codeGap ++ Loader.codePlace ++ loaderEnding) &&
  !occurs Loader.codePlace (header ++ p.opening) &&
  !occurs Loader.codePlace (p.middle ++ codeGap) &&
  p.setup.all isStatement && p.functions.all isStatement &&
  ((spellAll? p.setup).any fun is => (spellAll? p.functions).any fun js =>
    readsAs false (openingItems is.flatten) p.opening &&
    decide ((openingItems is.flatten).length ≤ p.opening.length) &&
    (readsAs false (searchBack ++ js.flatten) p.middle &&
    decide ((searchBack ++ js.flatten).length ≤ p.middle.length)))

theorem exists_loaderPieces : ((loaderPieces? loaderHeader Loader.developmentText).any
    fun p => p.fits loaderHeader Loader.developmentText) = true := by
  -- as for the other loader, the characters of the lines are all written out first
  obtain ⟨css, hlines, h⟩ : ∃ css,
      List.Forall₂ (fun line cs => line = String.ofList cs) Loader.developmentLines css ∧
        ((loaderPieces? ((css.take 7).flatMap fun cs => cs ++ ['\n'])
          (css.flatMap fun cs => cs ++ ['\n'])).any fun p =>
            p.fits ((css.take 7).flatMap fun cs => cs ++ ['\n'])
              (css.flatMap fun cs => cs ++ ['\n'])) = true := by
    apply Exists.intro
    apply And.intro
    case h.left =>
      simp only [Loader.developmentLines]
      repeat
        apply List.Forall₂.cons
        · exact rfl
      exact .nil
    case h.right => decide +kernel
  rw [loaderHeader, Loader.developmentText, text_of_forall₂ hlines,
    text_of_forall₂ (List.forall₂_take 7 hlines)]
  exact h

theorem LoaderPieces.nonempty_loaderCut {p : LoaderPieces}
    (h : p.fits loaderHeader Loader.developmentText = true) : Nonempty LoaderCut := by
  simp only [fits, Bool.and_eq_true, beq_iff_eq, Bool.not_eq_true', Option.any_eq_true] at h
  obtain ⟨⟨⟨⟨⟨⟨⟨⟨⟨⟨hfront, htext⟩, hmiddle⟩, hlast⟩, hname⟩, hname'⟩, hcode⟩, hcode'⟩, hsetup⟩,
    hfunctions⟩, is, his, js, hjs, hopening, hback⟩ := h
  obtain ⟨rest, hrest⟩ := Option.isSome_iff_exists.mp hmiddle
  exact ⟨{ p with
    setupItems := is
    functionItems := js
    front_eq := hfront
    text_eq := htext
    middle_eq := ⟨rest, after?_eq_some_iff.mp hrest⟩
    middle_last := hlast
    name_free := ⟨hname, hname'⟩
    code_free := ⟨hcode, hcode'⟩
    setup_spelled := his
    setup_statements := hsetup
    functions_spelled := hjs
    functions_statements := hfunctions
    opening_writes := writes_of_readsAs (Bool.and_eq_true _ _ ▸ hopening) (by decide)
    middle_writes := writes_of_readsAs (Bool.and_eq_true _ _ ▸ hback) (by decide) }⟩

theorem nonempty_loaderCut : Nonempty LoaderCut := by
  obtain ⟨p, -, hp⟩ := (Option.any_eq_true _ _).mp exists_loaderPieces
  exact p.nonempty_loaderCut hp

set_option maxRecDepth 2000 in
theorem skip_loaderHeader (cs : List Char) :
    Trivia.skip .between ⟨true, false, false⟩ (loaderHeader ++ cs) =
      Trivia.skip .between ⟨true, false, false⟩ cs := by
  obtain ⟨css, hlines, h⟩ : ∃ css,
      List.Forall₂ (fun line cs => line = String.ofList cs) (Loader.developmentLines.take 7) css ∧
        Trivia.skip .between ⟨true, false, false⟩ ((css.flatMap fun cs => cs ++ ['\n']) ++ cs) =
          Trivia.skip .between ⟨true, false, false⟩ cs := by
    apply Exists.intro
    apply And.intro
    case h.left =>
      simp only [Loader.developmentLines, List.take_succ_cons, List.take_zero]
      repeat
        apply List.Forall₂.cons
        · exact rfl
      exact .nil
    case h.right => rfl
  rw [loaderHeader, text_of_forall₂ hlines]
  exact h

theorem hashbang_loaderHeader (cs : List Char) :
    hashbang (loaderHeader ++ cs) = (none, loaderHeader ++ cs) :=
  rfl

end DefineBundle.Bundle
