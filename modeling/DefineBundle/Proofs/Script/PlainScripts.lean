import DefineBundle.Proofs.Script.PlainStatements

/-!
# Reading plain scripts

A text that is gone through by the items of plain statements, one after the other up to its end, is
the script of these statements.
-/
namespace DefineBundle.Script

open DefineBundle.Script.Tree DefineBundle.Script.Parser

mutual

theorem exportedNames_eq_nil {t : Tree} {is : List Item} (h : spell? t = some is) :
    t.exportedNames = [] := by
  obtain ⟨f, ps⟩ := t
  have hparts : (node f ps).exportedNames = exportedNamesAmong ps := by
    cases spells_of_spell? h <;> rfl
  rw [spell?] at h
  obtain ⟨iss, hs, -⟩ := Option.bind_eq_some_iff.mp h
  rw [hparts, exportedNamesAmong_eq_nil hs]

theorem exportedNamesAmong_eq_nil {ts : List Tree} {is : List (List Item)}
    (h : spellAll? ts = some is) : exportedNamesAmong ts = [] := by
  cases ts with
  | nil => rfl
  | cons t ts =>
      obtain ⟨i, js, hi, hjs, rfl⟩ := exists_of_spellAll?_cons h
      rw [exportedNamesAmong, exportedNames_eq_nil hi, exportedNamesAmong_eq_nil hjs]
      rfl

end

/-- Whether a form belongs to scripts that are neither modules nor have types. -/
def Form.isClassic : Form → Bool
  | .importFrom _ _ | .importAttributes _ | .importAttribute | .importDefault _ | .importAll _
  | .importName _ _ _ | .importAlias _ | .required | .exportNames _ | .exportName _ _ _
  | .exportAll _ _ | .exportDeclaration | .exportDefault | .metaProperty "import" _
  | .typeAlias _ | .interface _ | .enumeration _ _ | .enumMember | .namespaceOf _ _
  | .typeName _ | .literalType | .typeOperator _ | .arrayType | .indexedType | .joinedType _
  | .tupleType | .tupleElement _ _ | .groupedType | .functionType _ | .conditionalType
  | .objectType | .fieldType _ _ | .methodType _ _ | .indexType _ _ => false
  | _ => true

mutual

/-- Whether a tree is one of a script that is no module and has no types. -/
def Tree.isClassic : Tree → Bool
  | node f ps => f.isClassic && areClassic ps
termination_by structural t => t

def Tree.areClassic : List Tree → Bool
  | [] => true
  | t :: ts => isClassic t && areClassic ts
termination_by structural ts => ts

end

mutual

theorem isClassic_of_spell? {t : Tree} {is : List Item} (h : spell? t = some is) :
    t.isClassic = true := by
  obtain ⟨f, ps⟩ := t
  have hform : f.isClassic = true := by
    cases spells_of_spell? h <;> rfl
  rw [spell?] at h
  obtain ⟨iss, hs, -⟩ := Option.bind_eq_some_iff.mp h
  rw [Tree.isClassic, hform, areClassic_of_spellAll? hs]
  rfl

theorem areClassic_of_spellAll? {ts : List Tree} {is : List (List Item)}
    (h : spellAll? ts = some is) : areClassic ts = true := by
  cases ts with
  | nil => rfl
  | cons t ts =>
      obtain ⟨i, js, hi, hjs, rfl⟩ := exists_of_spellAll?_cons h
      rw [areClassic, isClassic_of_spell? hi, areClassic_of_spellAll? hjs]
      rfl

end

theorem run_statementsToEnd {g : Grammar} {n : Nat} (hg : Sound g n) {ts : List Tree}
    {is : List (List Item)} {c d : Cursor} (hspell : spellAll? ts = some is)
    (ht : ts.all isStatement = true) (h : Along is.flatten c d) (hd : d.token = .finish)
    (hn : is.flatten.length < n) (hb : is.flatten.length < c.budget) :
    statementsToEnd g c = (some ts, d) := by
  refine run_statements (s := Scope.top) hg ⟨rfl, rfl, rfl⟩ ?_ ?_ hspell ht h
    (by rw [hd]; rfl) hn hb
  · intro acc t c m hbegins hread
    have hfinish : (c.token == .finish) = false := by
      rw [beq_eq_false_iff_ne]
      intro he
      rw [he] at hbegins
      cases hbegins
    rw [run_token_bind, hfinish, if_neg Bool.false_ne_true, run_bind hread, run_pure]
  · intro acc
    rw [run_token_bind, hd]
    rfl

theorem run_directives_nil {g : Grammar} {s : Scope} {c : Cursor}
    (hc : ∀ v l raw, c.token ≠ .string v l raw) (hb : 0 < c.budget) :
    directives g s c = (some ([], []), c) := by
  refine run_loop_of_inr hb ?_
  rw [run_token_bind]
  generalize c.token = t at hc
  split
  · exact absurd rfl (hc _ _ _)
  · rfl

/-- Items that lead from the start of a text to its end are those of its statements. -/
theorem parse?_of_along {source : String} {ts : List Tree} {is : List (List Item)} {c d : Cursor}
    (hstart : Parser.start source.toList = some c)
    (hfirst : hashbang source.toList = (none, source.toList))
    (hspell : spellAll? ts = some is) (ht : ts.all isStatement = true) (h : Along is.flatten c d)
    (hd : d.token = .finish) (hlength : is.flatten.length ≤ source.toList.length) :
    parse? source = some (node (.program none []) ts) := by
  have hmoved := hstart
  unfold Parser.start at hmoved
  obtain ⟨hbudget, hdefaults, -⟩ := shares_of_moved hmoved
  dsimp only at hbudget hdefaults
  have hstring : ∀ v l raw, c.token ≠ .string v l raw := by
    intro v l raw he
    cases ts with
    | nil =>
        cases hspell
        obtain rfl : c = d := h
        rw [hd] at he
        cases he
    | cons t ts =>
        obtain ⟨i, js, hi, -, rfl⟩ := exists_of_spellAll?_cons hspell
        rw [List.all_cons, Bool.and_eq_true] at ht
        rw [List.flatten_cons, along_append] at h
        obtain ⟨m, hm, -⟩ := h
        have hbegins := (begins_of_along hi ht.1 hm).2
        rw [he] at hbegins
        cases hbegins
  have hextent := Text.PlainAscii.length_le_extent source.toList
  have hend :=
    run_statementsToEnd (sound_unfolded (Text.PlainAscii.extent source.toList + 1)) hspell
    ht h hd
    (by omega) (by omega)
  have hdefaults' : (d.openDefaults == 0) = true := by
    rw [h.shares.2.1, hdefaults]
    rfl
  have hnodup : decide (node (.program none []) ts).exportedNames.Nodup = true := by
    have hnone : (node (.program none []) ts).exportedNames = [] := exportedNamesAmong_eq_nil hspell
    rw [hnone]
    rfl
  unfold parse?
  dsimp only
  rw [hfirst]
  dsimp only
  rw [hstart, Option.bind_eq_bind, Option.bind_some]
  simp only [program, run_bind (run_directives_nil hstring (by omega)), run_bind hend,
    List.nil_append, run_look_bind, run_bind (run_require hdefaults' d),
    run_bind (run_require hnodup d), run_pure]

end DefineBundle.Script
