import DefineBundle.Proofs.Script.Renaming
import DefineBundle.Script.Splice
import Mathlib.Logic.Basic

/-!
# Splicing into a frame

Statements that are spliced into a script take the place of one marker, wherever in the script a
list of statements has one, and where that is does not depend on the statements. So the script is a
frame around them, and what is done to the whole is done to the frame and to the statements apart.
-/
namespace DefineBundle.Script.Tree

/-- Whether statements stand among the parts of a form. -/
def Listed (f : Form) : Prop :=
  holdsStatements f = true ∨ f = .switchCase

/-- A tree that has statements to be filled in. -/
inductive Frame
  | here (form : Form) (listed : Listed form) (before after : List Tree)
  | inside (form : Form) (before : List Tree) (frame : Frame) (after : List Tree)

namespace Frame

def form : Frame → Form
  | here f _ _ _ => f
  | inside f _ _ _ => f

def fill (body : List Tree) : Frame → Tree
  | here f _ before after => node f (before ++ body ++ after)
  | inside f before frame after => node f (before ++ fill body frame :: after)

theorem form_fill (body : List Tree) (frame : Frame) : (frame.fill body).form = frame.form := by
  cases frame <;> rfl

end Frame

/-- The statements that a node lists: the parts of a body or block, and those behind the test of a
case. The body of a concise function lists the expression that it consists of. -/
def listed (f : Form) (ps : List Tree) : List Tree :=
  if f = .switchCase then ps.drop 1 else if holdsStatements f then ps else []

mutual

def statementLists : Tree → List (List Tree)
  | node f ps => listed f ps :: statementListsAmong ps
termination_by structural t => t

/-- All lists of statements in any of the trees. -/
def statementListsAmong : List Tree → List (List Tree)
  | [] => []
  | t :: ts => statementLists t ++ statementListsAmong ts
termination_by structural ts => ts

end

theorem mem_statementListsAmong_iff {l ts : List Tree} :
    l ∈ statementListsAmong ts ↔ ∃ t ∈ ts, l ∈ statementLists t := by
  induction ts with
  | nil => simp [statementListsAmong]
  | cons t ts ih => simp [statementListsAmong, ih]

/-- Whether the statements of a frame stand in a list of statements, and not where a case has its
test. -/
def Frame.FitsList : Frame → Prop
  | here f _ before _ => f = .switchCase → before ≠ []
  | inside _ _ frame _ => frame.FitsList

/-- What stands alone in a frame is one of the statements of the tree. -/
theorem Frame.FitsList.exists_mem {frame : Frame} (h : frame.FitsList) (s : Tree) :
    ∃ l ∈ (frame.fill [s]).statementLists, s ∈ l := by
  induction frame with
  | here f isListed before after =>
      refine ⟨_, by rw [fill, statementLists]; exact List.mem_cons_self, ?_⟩
      unfold listed
      split
      · rename_i hcase
        obtain ⟨test, before', rfl⟩ := List.exists_cons_of_ne_nil (h hcase)
        simp
      · rename_i hcase
        rw [if_pos (isListed.resolve_right hcase)]
        simp
  | inside f before frame after ih =>
      obtain ⟨l, hl, hs⟩ := ih h
      refine ⟨l, ?_, hs⟩
      rw [fill, statementLists, List.mem_cons, mem_statementListsAmong_iff]
      exact .inr ⟨_, by simp, hl⟩

def Unmarked (marker : String) (t : Tree) : Prop :=
  ∀ l ∈ t.statementLists, ∀ s ∈ l, isMarker marker s = false

/-- A frame stands around a marker of a tree, the one whose place other statements take. -/
structure Frame.Marks (frame : Frame) (marker : String) (t : Tree) : Prop where
  fits : frame.FitsList
  exists_marker : ∃ s, isMarker marker s = true ∧ t = frame.fill [s]
  splice? : ∀ body, splice? marker body t = some (frame.fill body)

variable {marker : String}

theorem unmarked_node_iff {f : Form} {ps : List Tree} : Unmarked marker (node f ps) ↔
    (∀ s ∈ listed f ps, isMarker marker s = false) ∧ ∀ t ∈ ps, Unmarked marker t := by
  simp only [Unmarked, statementLists, List.forall_mem_cons, mem_statementListsAmong_iff,
    forall_exists_index, and_imp]
  exact and_congr_right fun _ => ⟨fun h t ht l hl => h l t ht hl, fun h l t ht hl => h t ht l hl⟩

theorem exists_replaceMarker? (marker : String) (ts : List Tree) :
    ((∀ body, replaceMarker? marker body ts = none) ∧ ∀ t ∈ ts, isMarker marker t = false) ∨
      ∃ before s after, isMarker marker s = true ∧ ts = before ++ s :: after ∧
        ∀ body, replaceMarker? marker body ts = some (before ++ body ++ after) := by
  induction ts with
  | nil => exact .inl ⟨fun body => rfl, by simp⟩
  | cons t ts ih =>
      by_cases hmarker : isMarker marker t = true
      · exact .inr ⟨[], t, ts, hmarker, rfl, fun body => by simp [replaceMarker?, hmarker]⟩
      · rcases ih with ⟨hnone, hunmarked⟩ | ⟨before, s, after, hs, hts, hsome⟩
        · refine .inl ⟨fun body => by simp [replaceMarker?, hmarker, hnone], ?_⟩
          exact List.forall_mem_cons.mpr ⟨Bool.eq_false_iff.mpr hmarker, hunmarked⟩
        · exact .inr ⟨t :: before, s, after, hs, by simp [hts],
            fun body => by simp [replaceMarker?, hmarker, hsome]⟩

/-- What splicing does to the trees of a list. -/
def PlacedAmong (marker : String) (ts : List Tree) : Prop :=
  ((∀ body, spliceAmong? marker body ts = none) ∧ ∀ t ∈ ts, Unmarked marker t) ∨
    ∃ (before : List Tree) (t : Tree) (after : List Tree) (frame : Frame), frame.Marks marker t ∧
      ts = before ++ t :: after ∧
      ∀ body, spliceAmong? marker body ts = some (before ++ frame.fill body :: after)

theorem Frame.Marks.inside {frame : Frame} {f : Form} {before after : List Tree} {t : Tree}
    (h : frame.Marks marker t)
    (hsplice : ∀ body, Tree.splice? marker body (node f (before ++ t :: after)) =
      some (node f (before ++ frame.fill body :: after))) :
    (Frame.inside f before frame after).Marks marker (node f (before ++ t :: after)) := by
  obtain ⟨s, hs, rfl⟩ := h.exists_marker
  exact ⟨h.fits, ⟨s, hs, rfl⟩, hsplice⟩

/-- Whether a node takes statements is known when it is known of its parts. -/
theorem exists_frame_of_parts {f : Form} {ps : List Tree} (hcase : ¬ (f = .switchCase ∧ ps ≠ []))
    (h : PlacedAmong marker ps) :
    ((∀ body, splice? marker body (node f ps) = none) ∧ Unmarked marker (node f ps)) ∨
      ∃ frame : Frame, frame.Marks marker (node f ps) := by
  have hsplice : ∀ body, splice? marker body (node f ps) =
      ((if holdsStatements f then replaceMarker? marker body ps else none).or
        (spliceAmong? marker body ps)).map (node f) := by
    intro body
    unfold splice?
    split
    · rename_i he
      cases he
      exact absurd ⟨rfl, List.cons_ne_nil _ _⟩ hcase
    · rename_i he
      cases he
      cases (if holdsStatements f then replaceMarker? marker body ps else none) <;> rfl
  have hlistedEq : listed f ps = if holdsStatements f then ps else [] := by
    unfold listed
    split
    · rename_i hf
      have hps : ps = [] := Decidable.of_not_not fun hps => hcase ⟨hf, hps⟩
      simp [hps]
    · rfl
  have hinside : (∀ body, (if holdsStatements f then replaceMarker? marker body ps else none) =
        none) → (∀ s ∈ listed f ps, isMarker marker s = false) →
      ((∀ body, splice? marker body (node f ps) = none) ∧ Unmarked marker (node f ps)) ∨
        ∃ frame : Frame, frame.Marks marker (node f ps) := by
    intro hnone hunmarked
    rcases h with ⟨hnone', hunmarked'⟩ | ⟨before, t, after, frame, hframe, rfl, hsome⟩
    · exact .inl ⟨fun body => by rw [hsplice, hnone, hnone']; rfl,
        unmarked_node_iff.mpr ⟨hunmarked, hunmarked'⟩⟩
    · exact .inr ⟨_, hframe.inside fun body => by rw [hsplice, hnone, hsome]; rfl⟩
  by_cases hlists : holdsStatements f = true
  · rcases exists_replaceMarker? marker ps with
      ⟨hnone, hunmarked⟩ | ⟨before, s, after, hs, rfl, hsome⟩
    · exact hinside (fun body => by rw [if_pos hlists, hnone])
        (by rw [hlistedEq, if_pos hlists]; exact hunmarked)
    · refine .inr ⟨.here f (.inl hlists) before after, ?_, ⟨s, hs, by simp [Frame.fill]⟩,
        fun body => by rw [hsplice, if_pos hlists, hsome]; rfl⟩
      rintro rfl
      cases hlists
  · exact hinside (fun body => if_neg hlists) (by rw [hlistedEq, if_neg hlists]; simp)

mutual

/-- A tree takes no statements and has no marker, or it is a frame around one. -/
theorem exists_frame (marker : String) : ∀ t : Tree,
    ((∀ body, splice? marker body t = none) ∧ Unmarked marker t) ∨
      ∃ frame : Frame, frame.Marks marker t
  | node f ps => by
      by_cases hcase : f = .switchCase ∧ ps ≠ []
      · obtain ⟨rfl, hps⟩ := hcase
        cases ps with
        | nil => exact absurd rfl hps
        | cons test ts =>
            rcases exists_frame marker test with ⟨hnone, htest⟩ | ⟨frame, hframe⟩
            · rcases exists_replaceMarker? marker ts with ⟨hnone', hts⟩ |
                ⟨before, s, after, hs, rfl, hsome⟩
              · rcases exists_frameAmong marker ts with ⟨hnone'', hinside⟩ |
                  ⟨before, t, after, frame, hframe, rfl, hsome⟩
                · exact .inl ⟨fun body => by simp [splice?, hnone, hnone', hnone''],
                    unmarked_node_iff.mpr ⟨hts, List.forall_mem_cons.mpr ⟨htest, hinside⟩⟩⟩
                · exact .inr ⟨.inside .switchCase (test :: before) frame after,
                    hframe.inside fun body => by simp [splice?, hnone, hnone', hsome]⟩
              · exact .inr ⟨.here .switchCase (.inr rfl) (test :: before) after,
                  fun _ => List.cons_ne_nil _ _, ⟨s, hs, by simp [Frame.fill]⟩, fun body => by
                    simp [splice?, hnone, hsome, Frame.fill]⟩
            · exact .inr ⟨.inside .switchCase [] frame ts, hframe.inside fun body => by
                simp [splice?, hframe.splice?]⟩
      · exact exists_frame_of_parts hcase (exists_frameAmong marker ps)

theorem exists_frameAmong (marker : String) : ∀ ts : List Tree, PlacedAmong marker ts
  | [] => .inl ⟨fun body => by rw [spliceAmong?], by simp⟩
  | t :: ts => by
      rcases exists_frame marker t with ⟨hnone, ht⟩ | ⟨frame, hframe⟩
      · rcases exists_frameAmong marker ts with ⟨hnone', hts⟩ |
          ⟨before, u, after, frame, hframe, rfl, hsome⟩
        · exact .inl ⟨fun body => by rw [spliceAmong?, hnone, hnone']; rfl,
            List.forall_mem_cons.mpr ⟨ht, hts⟩⟩
        · exact .inr ⟨t :: before, u, after, frame, hframe, rfl, fun body => by
            rw [spliceAmong?, hnone, hsome]; rfl⟩
      · exact .inr ⟨[], t, ts, frame, hframe, rfl, fun body => by
          rw [spliceAmong?, hframe.splice?]; rfl⟩

end

/-- A statement is a call of a name without arguments and nothing else. -/
def IsBareCall (name : String) (s : Tree) : Prop :=
  ∃ isOptional isPure ps,
    s = node .expression [node (.call isOptional isPure) [node (.identifier name) ps]]

theorem isMarker_iff {s : Tree} : isMarker marker s = true ↔ IsBareCall marker s := by
  constructor
  · intro h
    unfold isMarker at h
    split at h
    · rename_i call
      obtain ⟨f, ps⟩ := call
      cases hcall : callArguments? marker (node f ps) with
      | none =>
          rw [hcall] at h
          cases h
      | some arguments =>
          rw [hcall, Option.any_some, List.isEmpty_iff] at h
          subst h
          obtain ⟨isOptional, isPure, qs, rfl, rfl⟩ := callArguments?_eq_some_iff.mp hcall
          exact ⟨isOptional, isPure, qs, rfl⟩
    · cases h
  · rintro ⟨isOptional, isPure, ps, rfl⟩
    simp [isMarker, callArguments?]

theorem exists_bareCall_iff {t : Tree} :
    (∃ l ∈ t.statementLists, ∃ s ∈ l, IsBareCall marker s) ↔ ¬ Unmarked marker t := by
  simp only [Unmarked, not_forall, Bool.not_eq_false, isMarker_iff, exists_prop]

/-- Statements take the place of a marker just when some list of statements has one, and of one
marker only: the program is a frame around it, and it becomes the same frame around the statements,
whatever they are and whatever other markers there are. A program without a marker stays as it
is. -/
theorem splice?_replaces_one (marker : String) (t : Tree) :
    (∀ statements, (splice? marker statements t).isSome = true ↔
      ∃ l ∈ t.statementLists, ∃ s ∈ l, IsBareCall marker s) ∧
    ((∃ l ∈ t.statementLists, ∃ s ∈ l, IsBareCall marker s) →
      ∃ (frame : Frame) (s : Tree), frame.FitsList ∧ IsBareCall marker s ∧ t = frame.fill [s] ∧
        ∀ statements, splice? marker statements t = some (frame.fill statements)) ∧
    ((¬ ∃ l ∈ t.statementLists, ∃ s ∈ l, IsBareCall marker s) →
      ∀ statements, (splice? marker statements t).getD t = t) := by
  rw [exists_bareCall_iff]
  rcases exists_frame marker t with ⟨hnone, hunmarked⟩ | ⟨frame, hframe⟩
  · refine ⟨fun statements => ?_, fun hmarked => absurd hunmarked hmarked, fun _ statements => ?_⟩
    · simp [hnone, hunmarked]
    · rw [hnone]
      rfl
  · obtain ⟨s, hs, ht⟩ := hframe.exists_marker
    have hmarked : ¬ Unmarked marker t := by
      obtain ⟨l, hl, hmem⟩ := hframe.fits.exists_mem s
      exact exists_bareCall_iff.mp ⟨l, ht ▸ hl, s, hmem, isMarker_iff.mp hs⟩
    refine ⟨fun statements => ?_, fun _ => ?_, fun hnot => absurd hmarked hnot⟩
    · simp [hframe.splice?, hmarked]
    · exact ⟨frame, s, hframe.fits, isMarker_iff.mp hs, ht, hframe.splice?⟩

/-- Of two calls in a case, one gives its place, also to statements with a call of their own; a call
that is a branch and stands in no list gives none. -/
theorem splice?_replaces_one_case :
    let call := node .expression [node (.call false false) [leaf (.identifier "f")]]
    let among := node (.program none []) [node .switch [leaf .thisRef,
      node .switchCase [leaf .nullLiteral, call, call]]]
    let apart := node (.program none []) [node .ifElse [leaf .thisRef, call]]
    ((∃ l ∈ among.statementLists, ∃ s ∈ l, IsBareCall "f" s) ∧
      ∃ (frame : Frame) (s : Tree), frame.FitsList ∧ IsBareCall "f" s ∧ among = frame.fill [s] ∧
        frame.fill [call, leaf .debugger] = node (.program none []) [node .switch [leaf .thisRef,
          node .switchCase [leaf .nullLiteral, call, leaf .debugger, call]]]) ∧
      (¬ ∃ l ∈ apart.statementLists, ∃ s ∈ l, IsBareCall "f" s) ∧
      (splice? "f" [leaf .debugger] apart).getD apart = apart := by
  intro call among apart
  have hmarked : ∃ l ∈ among.statementLists, ∃ s ∈ l, IsBareCall "f" s :=
    ((splice?_replaces_one "f" among).1 []).mp rfl
  have hapart : ¬ ∃ l ∈ apart.statementLists, ∃ s ∈ l, IsBareCall "f" s := fun h =>
    Bool.false_ne_true (((splice?_replaces_one "f" apart).1 []).mpr h)
  obtain ⟨frame, s, hfits, hs, hamong, hsplice⟩ := (splice?_replaces_one "f" among).2.1 hmarked
  refine ⟨⟨hmarked, frame, s, hfits, hs, hamong, ?_⟩, hapart, ?_⟩
  · exact Option.some.inj ((hsplice [call, leaf .debugger]).symm.trans rfl)
  · exact (splice?_replaces_one "f" apart).2.2 hapart [leaf .debugger]

/-- The expression that is all of a concise function counts as a statement of its body. The
statements that take its place stand in a body that is still that of a concise function. -/
theorem splice?_concise {isAsync isEffectFree : Bool} {parameters s : Tree} {statements : List Tree}
    (hparameters : splice? marker statements parameters = none) (hs : isMarker marker s = true) :
    splice? marker statements
        (node (.arrow isAsync true isEffectFree) [parameters, node (.body []) [s]]) =
      some (node (.arrow isAsync true isEffectFree) [parameters, node (.body []) statements]) := by
  simp [splice?, holdsStatements, spliceAmong?, hparameters, replaceMarker?, hs]

mutual

/-- Whether no string literal of a tree has parts. -/
def plainLiterals : Tree → Bool
  | node f ps => (f.literal?.isNone || ps.isEmpty) && plainLiteralsAmong ps
termination_by structural t => t

def plainLiteralsAmong : List Tree → Bool
  | [] => true
  | t :: ts => plainLiterals t && plainLiteralsAmong ts
termination_by structural ts => ts

end

theorem plainLiteralsAmong_append (ts us : List Tree) :
    plainLiteralsAmong (ts ++ us) = (plainLiteralsAmong ts && plainLiteralsAmong us) := by
  induction ts with
  | nil => rfl
  | cons t ts ih =>
      rw [List.cons_append, plainLiteralsAmong, plainLiteralsAmong, ih, Bool.and_assoc]

theorem Listed.ne {f g : Form} (h : Listed f) (hg : holdsStatements g = false)
    (hcase : g ≠ .switchCase) : f ≠ g := by
  rintro rfl
  rcases h with h | h
  · rw [hg] at h
    cases h
  · exact hcase h

theorem Listed.literal?_eq_none {f : Form} (h : Listed f) : f.literal? = none := by
  cases f with
  | string v l => exact absurd rfl (h.ne rfl (by simp))
  | _ => rfl

namespace Frame

variable {body body' : List Tree} {frame : Frame}

/-- What has parts is no string literal in a frame without such literals. -/
theorem plainLiterals_inside {f : Form} {before after : List Tree}
    (h : plainLiterals ((inside f before frame after).fill []) = true) :
    f.literal? = none ∧ plainLiterals (frame.fill []) = true := by
  rw [fill, plainLiterals, plainLiteralsAmong_append, plainLiteralsAmong] at h
  simp only [Bool.and_eq_true, Bool.or_eq_true, List.isEmpty_iff, List.append_eq_nil_iff,
    List.cons_ne_nil, and_false, or_false, Option.isNone_iff_eq_none] at h
  exact ⟨h.1, h.2.2.1⟩

theorem declared?_fill (body body' : List Tree) (frame : Frame) :
    declared? (frame.fill body) = declared? (frame.fill body') := by
  cases frame with
  | here f listed before after =>
      have hf : f ≠ .declarator := listed.ne rfl (by simp)
      simp [declared?, fill, Tree.form, hf]
  | inside f before frame after =>
      cases before with
      | nil =>
          have hform : (frame.fill body).form = (frame.fill body').form := by
            rw [form_fill, form_fill]
          simp only [declared?, fill, List.nil_append, Tree.form, Tree.parts, List.head?_cons,
            Option.bind_some]
          exact congrArg (fun g : Form => if f = .declarator then g.identifier? else none) hform
      | cons t ts => rfl

/-- What a `var` statement declares first is not among the statements filled in. -/
theorem firstDeclared?_fill (body body' : List Tree) (frame : Frame) :
    firstDeclared? (frame.fill body) = firstDeclared? (frame.fill body') := by
  cases frame with
  | here f listed before after =>
      have hf : f ≠ .declaration .var := listed.ne rfl (by simp)
      simp [firstDeclared?, fill, Tree.form, hf]
  | inside f before frame after =>
      cases before with
      | nil =>
          exact congrArg (fun d => if f = .declaration .var then d else none)
            (declared?_fill body body' frame)
      | cons t ts => rfl

/-- Only the statements filled in are restored in a frame without names. -/
theorem restored_fill {names ids : String → Option String} {drops : Tree → Bool}
    (hu : Undoes names ids drops) (h : Free ids (frame.fill [])) :
    restored drops ids (frame.fill body) = frame.fill (restoredAmong drops ids body) := by
  induction frame with
  | here f listed before after =>
      rw [fill, List.append_nil] at h
      obtain ⟨hbefore, hafter⟩ := h.among.of_append
      rw [fill, restored_node h.bind_eq_none, restoredAmong_append, restoredAmong_append,
        restoredAmong_of_free hu hbefore, restoredAmong_of_free hu hafter, fill]
  | inside f before frame after ih =>
      rw [fill] at h
      obtain ⟨hbefore, hrest⟩ := h.among.of_append
      have hkept := hu.drops_eq_false hrest.head (firstDeclared?_fill body [] frame)
      rw [fill, restored_node h.bind_eq_none, restoredAmong_append, restoredAmong_cons hkept,
        restoredAmong_of_free hu hbefore, restoredAmong_of_free hu hrest.tail, ih hrest.head, fill]

theorem literalsBy_fill {mark : Bool → Bool}
    (h : literalsByAmong mark body = literalsByAmong mark body') :
    literalsBy mark (frame.fill body) = literalsBy mark (frame.fill body') := by
  induction frame with
  | here f listed before after => simp only [fill, literalsBy, literalsByAmong_append, h]
  | inside f before frame after ih =>
      simp only [fill, literalsBy, literalsByAmong_append, literalsByAmong, ih]

/-- Filled frames are the same only if the statements filled in are. -/
theorem literalsByAmong_of_fill {mark : Bool → Bool}
    (hplain : plainLiterals (frame.fill []) = true)
    (h : literalsBy mark (frame.fill body) = literalsBy mark (frame.fill body')) :
    literalsByAmong mark body = literalsByAmong mark body' := by
  induction frame with
  | here f listed before after =>
      rw [fill, fill, literalsBy, literalsBy, listed.literal?_eq_none] at h
      have hparts := (node.inj h).2
      rw [literalsByAmong_append, literalsByAmong_append, literalsByAmong_append,
        literalsByAmong_append] at hparts
      exact List.append_cancel_left (List.append_cancel_right hparts)
  | inside f before frame after ih =>
      obtain ⟨hliteral, hplain⟩ := plainLiterals_inside hplain
      rw [fill, fill, literalsBy, literalsBy, hliteral] at h
      have hparts := (node.inj h).2
      rw [literalsByAmong_append, literalsByAmong_append] at hparts
      exact ih hplain (List.cons.inj (List.append_cancel_left hparts)).1

/-- The calls of `define` are those in the statements filled in when there are none around them. -/
theorem defineCalls_fill (h : defineCalls (frame.fill []) = []) :
    defineCalls (frame.fill body) = defineCallsAmong body := by
  induction frame with
  | here f listed before after =>
      have hnone : ∀ ts, callArguments? "define" (node f ts) = none := by
        intro ts
        rw [Option.eq_none_iff_forall_ne_some]
        intro arguments he
        obtain ⟨o, p, -, hf, -⟩ := callArguments?_eq_some_iff.mp he
        exact listed.ne rfl (by simp) hf
      rw [fill, defineCalls, hnone] at h
      rw [fill, defineCalls, hnone]
      simp only [List.append_nil, defineCallsAmong_append, List.append_eq_nil_iff] at h
      simp only [defineCallsAmong_append, h.1, h.2, List.nil_append, List.append_nil]
  | inside f before frame after ih =>
      rw [fill, defineCalls] at h
      rw [fill, defineCalls]
      cases hcall : callArguments? "define" (node f (before ++ frame.fill [] :: after)) with
      | some arguments =>
          rw [hcall] at h
          cases h
      | none =>
          have hcall' : callArguments? "define" (node f (before ++ frame.fill body :: after)) =
              none := by
            refine callArguments?_eq_none hcall ?_
            cases before with
            | nil => simp [form_fill]
            | cons t ts => rfl
          rw [hcall] at h
          rw [hcall']
          simp only [defineCallsAmong_append, defineCallsAmong, List.append_eq_nil_iff] at h
          simp only [defineCallsAmong_append, defineCallsAmong, h.1, h.2.2, ih h.2.1,
            List.nil_append, List.append_nil]

end Frame

end DefineBundle.Script.Tree
