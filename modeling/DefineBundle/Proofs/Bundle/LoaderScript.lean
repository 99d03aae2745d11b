import DefineBundle.Bundle.Minified
import DefineBundle.Proofs.Script.Variables
import Mathlib.Data.List.Forall2

/-!
# The script of the loader

What renaming needs to know of the loader that minified bundles are built around: it is a script
with a place for the code of the modules, it calls `define` nowhere itself, and its own identifiers
are no names that stand for ids. All this is found out by reading it. Of other scripts it is enough
that each is a program, whose calls of `define` stand in its statements.
-/
namespace DefineBundle.Script

theorem Parser.exists_of_bind {α β : Type} {p : Parser α} {f : α → Parser β} {c : Cursor} {b : β}
    (h : ((p >>= f) c).1 = some b) : ∃ a c', (f a c').1 = some b := by
  rcases hp : p c with ⟨_ | a, c'⟩
  · simp only [bind, OptionT.bind, OptionT.mk, StateT.bind, hp] at h
    cases h
  · simp only [bind, OptionT.bind, OptionT.mk, StateT.bind, hp] at h
    exact ⟨a, c', h⟩

theorem exists_program_of_parse? {source : String} {t : Tree} (h : parse? source = some t) :
    ∃ firstLine directives, t.form = .program firstLine directives := by
  unfold parse? at h
  dsimp only at h
  obtain ⟨c, -, h⟩ := Option.bind_eq_some_iff.mp h
  obtain ⟨⟨directives, first⟩, c, h⟩ := Parser.exists_of_bind h
  obtain ⟨rest, c, h⟩ := Parser.exists_of_bind h
  obtain ⟨_, c, h⟩ := Parser.exists_of_bind h
  obtain ⟨_, c, h⟩ := Parser.exists_of_bind h
  obtain ⟨_, c, h⟩ := Parser.exists_of_bind h
  obtain rfl := Option.some.inj h
  exact ⟨_, directives, rfl⟩

theorem exists_of_statements? {source : String} {ts : List Tree}
    (h : statements? source = some ts) :
    ∃ t, parse? source = some t ∧ t.defineCalls = Tree.defineCallsAmong ts := by
  obtain ⟨⟨f, ps⟩, ht, rfl⟩ := Option.map_eq_some_iff.mp h
  obtain ⟨firstLine, directives, hf⟩ := exists_program_of_parse? ht
  obtain rfl : f = .program firstLine directives := hf
  exact ⟨_, ht, rfl⟩

end DefineBundle.Script

namespace DefineBundle.Bundle

open DefineBundle.Script DefineBundle.Script.Tree

/-- The tree of a script given by its characters. -/
def scriptOf? (cs : List Char) : Option Tree := do
  let (firstLine, cs) := hashbang cs
  let c ← Parser.start cs
  (Parser.program (Goal.unfolded (Text.PlainAscii.extent cs + 1)) firstLine c).1

theorem parse?_ofList (cs : List Char) : parse? (String.ofList cs) = scriptOf? cs := by
  unfold parse? scriptOf?
  rw [String.toList_ofList]

/-- Whether a script can stand around code that was renamed. -/
def isHost (t : Tree) : Bool :=
  t.mentions.all (fun n => n.toList.head? != some '_') &&
    t.identifiers.all (fun n => n.toList.head? != some '_') &&
    t.defineCalls.isEmpty && t.plainLiterals

theorem text_of_forall₂ {lines : List String} {css : List (List Char)}
    (h : List.Forall₂ (fun line cs => line = String.ofList cs) lines css) :
    Loader.text lines = css.flatMap fun cs => cs ++ ['\n'] := by
  induction h with
  | nil => rfl
  | cons hline _ ih =>
      rw [Loader.text, List.flatMap_cons, List.flatMap_cons, hline, String.toList_ofList]
      exact congrArg _ ih

theorem isHost_inlineText :
    ((scriptOf? Loader.inlineText).bind (splice? Loader.codeMarker [])).any isHost = true := by
  -- reading goes fast only on lines whose characters are all there
  obtain ⟨css, hlines, h⟩ : ∃ css,
      List.Forall₂ (fun line cs => line = String.ofList cs) Loader.inlineLines css ∧
        ((scriptOf? (css.flatMap fun cs => cs ++ ['\n'])).bind
          (splice? Loader.codeMarker [])).any isHost = true := by
    apply Exists.intro
    apply And.intro
    case h.left =>
      simp only [Loader.inlineLines]
      repeat
        apply List.Forall₂.cons
        · exact rfl
      exact .nil
    case h.right => decide +kernel
  rw [Loader.inlineText, text_of_forall₂ hlines]
  exact h

/-- The script of the loader is a frame around the code of the modules. -/
theorem exists_frame_loaderScript : ∃ (loader : Tree) (frame : Frame),
    loaderScript? = some loader ∧
      (∀ body, loader.splice? Loader.codeMarker body = some (frame.fill body)) ∧
      isHost (frame.fill []) = true := by
  have hhost := isHost_inlineText
  rw [← parse?_ofList] at hhost
  change (loaderScript?.bind _).any _ = true at hhost
  cases hloader : loaderScript? with
  | none =>
      rw [hloader] at hhost
      cases hhost
  | some loader =>
      rw [hloader, Option.bind_some] at hhost
      rcases exists_frame Loader.codeMarker loader with ⟨hnone, -⟩ | ⟨frame, hframe⟩
      · rw [hnone] at hhost
        cases hhost
      · rw [hframe.splice?] at hhost
        exact ⟨loader, frame, rfl, hframe.splice?, hhost⟩

end DefineBundle.Bundle
