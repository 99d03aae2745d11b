import DefineBundle.Proofs.Script.PlainForm.Statements

/-!
# Scripts in plain form

The rules of the grammar read the same in plain form if nested goals do, so by induction on the
depth they all do. A steady text and its plain form are the same script up to how it is written.
-/
namespace DefineBundle.Script.PlainForm

open DefineBundle.Text DefineBundle.Text.PlainAscii DefineBundle.Script.Tree

theorem keeps_unfolded (text : List Char) (n : Nat) : Keeps text (Goal.unfolded n) := by
  induction n with
  | zero => exact fun _ => Parallel.failure
  | succ n ih =>
      intro goal
      cases goal with
      | assignment s => exact Parallel.assignment ih s
      | power s => exact Parallel.power ih s false
      | compared s => exact Parallel.binaryOver ih s false _
      | unary s => exact Parallel.unary ih s false
      | constructed s => exact Parallel.constructed ih s
      | heritage s => exact Parallel.leftHandSide ih s false
      | binding s => exact Parallel.binding ih s
      | type s => exact Parallel.type ih s
      | statement s isListed => exact Parallel.statement ih s isListed

mutual

theorem boundNames_respelled (t : Tree) : boundNames t.respelled = boundNames t := by
  match t with
  | node f ps =>
      cases f with
      | identifier n => rfl
      | withDefault | declarator | function =>
          match ps with
          | [] => rfl
          | target :: _ => exact boundNames_respelled target
      | property kind =>
          match ps with
          | [_, value] => exact boundNames_respelled value
          | [] | [_] | _ :: _ :: _ :: _ => rfl
      | classOf =>
          match ps with
          | _ :: name :: _ => exact boundNames_respelled name
          | [] | [_] => rfl
      | declaration | arrayPattern | objectPattern | rest => exact boundNamesAmong_respelled ps
      | _ => rfl
termination_by structural t

theorem boundNamesAmong_respelled (ts : List Tree) :
    boundNamesAmong (respelledAll ts) = boundNamesAmong ts := by
  match ts with
  | [] => rfl
  | t :: ts =>
      show boundNames t.respelled ++ boundNamesAmong (respelledAll ts) =
        boundNames t ++ boundNamesAmong ts
      rw [boundNames_respelled t, boundNamesAmong_respelled ts]
termination_by structural ts

end

mutual

theorem exportedNames_respelled (t : Tree) : exportedNames t.respelled = exportedNames t := by
  match t with
  | node f ps =>
      cases f with
      | exportName isType n name => rfl
      | exportNames isType =>
          cases isType with
          | true => rfl
          | false => exact exportedNamesAmong_respelled ps
      | exportAll isType name => rfl
      | exportDefault => exact congrArg ("default" :: ·) (exportedNamesAmong_respelled ps)
      | exportDeclaration =>
          match ps with
          | [t] =>
              show boundNames t.respelled ++ exportedNames t.respelled =
                boundNames t ++ exportedNames t
              rw [boundNames_respelled t, exportedNames_respelled t]
          | [] => exact exportedNamesAmong_respelled []
          | t :: u :: ts => exact exportedNamesAmong_respelled (t :: u :: ts)
      | _ => exact exportedNamesAmong_respelled ps
termination_by structural t

theorem exportedNamesAmong_respelled (ts : List Tree) :
    exportedNamesAmong (respelledAll ts) = exportedNamesAmong ts := by
  match ts with
  | [] => rfl
  | t :: ts =>
      show exportedNames t.respelled ++ exportedNamesAmong (respelledAll ts) =
        exportedNames t ++ exportedNamesAmong ts
      rw [exportedNames_respelled t, exportedNamesAmong_respelled ts]
termination_by structural ts

end

section FirstLine

variable {cs ds : List Char} {c : Char} {e : Bool}

theorem isSteady_left (h : isSteady e (cs ++ ds) = true) : isSteady e cs = true := by
  induction cs generalizing e with
  | nil => rfl
  | cons c cs ih =>
      rw [List.cons_append, isSteady, Bool.and_eq_true] at h
      rw [isSteady, h.1, ih h.2]
      rfl

theorem isSteady_right (h : isSteady e (cs ++ ds) = true) : ∃ e, isSteady e ds = true := by
  induction cs generalizing e with
  | nil => exact ⟨e, h⟩
  | cons c cs ih =>
      rw [List.cons_append, isSteady, Bool.and_eq_true] at h
      exact ih h.2

/-- A backslash in front of a line end that ends a comment escapes nothing. -/
theorem isSteady_lineEnd (hc : isLineEnd c = true) (h : isSteady e (c :: cs) = true) :
    isPlain c = true ∧ isSteady false (c :: cs) = true := by
  have hne : c ≠ '\\' := by
    rintro rfl
    cases hc
  have hsteady := isSteadyChar_of_mem h c List.mem_cons_self
  refine ⟨?_, isSteady_cons hsteady hne (isSteady_cons_of_ne hne h)⟩
  cases hplain : isPlain c with
  | true => rfl
  | false =>
      rw [isLineEnd_eq_false hplain hsteady] at hc
      cases hc

theorem isLineEnd_plain (h : ∀ c ∈ cs, isLineEnd c = false) :
    ∀ c ∈ plain cs, isLineEnd c = false := by
  intro c hmem
  obtain ⟨d, hd, hc⟩ := List.mem_flatMap.mp hmem
  cases hplain : isPlain d with
  | true =>
      rw [encodeChar, if_pos hplain, List.mem_singleton] at hc
      exact hc ▸ h d hd
  | false =>
      rcases mem_encodeChar hplain hc with rfl | rfl | hv
      · rfl
      · rfl
      · exact isLineEnd_of_isSome_hexValue? hv

theorem exists_line (cs : List Char) : ∃ line rest, cs = line ++ rest ∧
    (∀ c ∈ line, isLineEnd c = false) ∧ ∀ c, rest.head? = some c → isLineEnd c = true := by
  refine ⟨cs.takeWhile fun c => !isLineEnd c, cs.dropWhile fun c => !isLineEnd c,
    List.takeWhile_append_dropWhile.symm, fun c hc => ?_, fun c hc => ?_⟩
  · have hall := List.all_eq_true.mp (List.all_takeWhile (l := cs)) c hc
    simpa using hall
  · have hnot := List.head?_dropWhile_not (fun c => !isLineEnd c) cs
    rw [hc] at hnot
    simpa using hnot

theorem hashbang_line (h : ∀ c ∈ cs, isLineEnd c = false)
    (hds : ∀ c, ds.head? = some c → isLineEnd c = true) :
    hashbang ('#' :: '!' :: (cs ++ ds)) = (some (String.ofList cs), ds) := by
  have htake : (cs ++ ds).takeWhile (fun c => !isLineEnd c) = cs := by
    rw [List.takeWhile_append_of_pos (by simpa using h)]
    cases ds with
    | nil => simp
    | cons d ds => rw [List.takeWhile_cons_of_neg (by simp [hds d rfl]), List.append_nil]
  simp only [hashbang, htake, List.drop_left]

theorem agrees_hashbang (h : isSteady false cs = true) :
    hashbang (plain cs) = ((hashbang cs).1.map respell, plain (hashbang cs).2) ∧
      Behind cs (hashbang cs).2 := by
  by_cases hstart : ∃ ds, cs = '#' :: '!' :: ds
  · obtain ⟨ds, rfl⟩ := hstart
    obtain ⟨line, rest, rfl, hline, hrest⟩ := exists_line ds
    have hds := isSteady_cons_of_ne (by decide) (isSteady_cons_of_ne (by decide) h)
    obtain ⟨e, hsteady⟩ := isSteady_right hds
    have hkept : isSteady false rest = true ∧
        ∀ c, (plain rest).head? = some c → isLineEnd c = true := by
      cases rest with
      | nil => exact ⟨rfl, hrest⟩
      | cons c rest =>
          obtain ⟨hc, hsteady⟩ := isSteady_lineEnd (hrest c rfl) hsteady
          rw [plain_cons hc]
          exact ⟨hsteady, hrest⟩
    rw [hashbang_line hline hrest, plain_cons (by decide), plain_cons (by decide), plain_append,
      hashbang_line (isLineEnd_plain hline) hkept.2, Option.map_some,
      respell_ofList (isSteady_left hds)]
    refine ⟨rfl, ?_, hkept.1⟩
    exact (List.suffix_append line rest).trans ((List.suffix_cons _ _).trans (List.suffix_cons _ _))
  · have hnone : ∀ {ds : List Char}, (∀ es, ds = '#' :: '!' :: es → False) →
        hashbang ds = (none, ds) := by
      intro ds hds
      unfold hashbang
      split
      · exact (hds _ rfl).elim
      · rfl
    have hcs : ∀ es, cs = ['#', '!'] ++ es → False := fun es he => hstart ⟨es, he⟩
    rw [hnone hcs, hnone (ne_prefix_plain ['#', '!'] (by decide) hcs)]
    exact ⟨rfl, .refl h⟩

end FirstLine

namespace Parallel

variable {text : List Char} {g : Grammar}

theorem statementsToEnd (hg : Keeps text g) :
    Parallel text (List.map respelled) (Parser.statementsToEnd g) (Parser.statementsToEnd g) := by
  refine loop (f := List.map respelled) rfl fun acc => token.bind fun t => ?_
  rw [respelled_beq rfl]
  exact ite (pure_reverse acc) ((hg _).bind fun _ => pure rfl)

theorem program (hg : Keeps text g) (firstLine : Option String) :
    Parallel text respelled (Parser.program g firstLine)
      (Parser.program g (firstLine.map respell)) := by
  refine (directives hg _).bind fun z => (statementsToEnd hg).bind fun rest => ?_
  obtain ⟨ds, first⟩ := z
  refine Parallel.bind (f := id) (look fun c c' hc => ?_) fun _ => (require _).bind fun _ => ?_
  · rw [hc.openDefaults]
    rfl
  · have hnode : node (.program (firstLine.map respell) (ds.map respell))
        (first.map respelled ++ rest.map respelled) =
          (node (.program firstLine ds) (first ++ rest)).respelled := by
      rw [respelled_node, List.map_append]
      rfl
    dsimp only [Prod.map]
    rw [hnode, exportedNames_respelled]
    exact (require _).bind fun _ => pure rfl

end Parallel

theorem extent_plain (cs : List Char) : extent (plain cs) = extent cs := by
  refine congrArg List.length (plain_eq_self fun c hc => ?_)
  obtain ⟨d, -, hd⟩ := List.mem_flatMap.mp hc
  exact isPlain_of_mem_encodeChar hd

theorem relation_start {cs : List Char} (h : isSteady false cs = true) :
    Option.Rel (Matches cs) (Parser.start cs) (Parser.start (plain cs)) := by
  unfold Parser.start
  rw [extent_plain]
  exact relation_moved ⟨rfl, rfl, [], nofun, rfl, rfl⟩ (.refl h) true

/-- The plain form of a steady text is a script just when the text is one, and then it is the same
script up to how it is written. -/
theorem parse?_encode {code : String} (h : isSteady false code.toList = true) :
    parse? (encode code) = (parse? code).map respelled := by
  obtain ⟨hline, hbehind⟩ := agrees_hashbang h
  have hcode : (encode code).toList = plain code.toList := String.toList_ofList
  have hstart := relation_start hbehind.steady
  simp only [parse?, hcode, hline, extent_plain]
  generalize Parser.start (hashbang code.toList).2 = x at hstart
  generalize Parser.start (plain (hashbang code.toList).2) = y at hstart
  cases hstart with
  | none => rfl
  | some hc => exact (Parallel.program (keeps_unfolded _ _) _ _ _ hc).1

end DefineBundle.Script.PlainForm
