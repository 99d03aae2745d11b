import DefineBundle.Module.Exposure
import DefineBundle.Proofs.Text.Search
import Mathlib.Data.List.TakeWhile

/-!
# Private classes

A text with documentation blocks comes apart into exactly these blocks, whatever stars and slashes
stand at their edges. A block names the class of its first class tag that has blanks and a name
behind it. So a module that is published unless it is private is held back just when one of the
blocks has the private tag and names the module, in one of the two ways to write an id.
-/
namespace DefineBundle.ClassDoc

open DefineBundle.Text

/-- A text with documentation blocks: what stands in front of the first one, and each block with
what stands behind it. -/
def documented (front : List Char) (parts : List (List Char × List Char)) : List Char :=
  front ++ parts.flatMap fun p => opening ++ (p.1 ++ (ending ++ p.2))

theorem block?_append {front block : List Char} (hfront : ¬ opening <:+: front) (hne : block ≠ [])
    (hblock : ¬ ending <:+: block) (rest : List Char) :
    block? (front ++ (opening ++ (block ++ (ending ++ rest)))) = some (block, rest) := by
  obtain ⟨c, inside, rfl⟩ := List.exists_cons_of_ne_nil hne
  have hopen : splitFirst? opening (front ++ (opening ++ (c :: inside ++ (ending ++ rest)))) =
      some (front, c :: inside ++ (ending ++ rest)) :=
    splitFirst?_append_word (by decide) hfront _
  have hinside : ¬ ending <:+: inside :=
    fun h => hblock (h.trans (List.suffix_cons c inside).isInfix)
  have hclose : splitFirst? ending (inside ++ (ending ++ rest)) = some (inside, rest) :=
    splitFirst?_append_word (by decide) hinside _
  rw [block?, hopen]
  simp only [List.cons_append, hclose, Option.map_some]

theorem block?_eq_none {cs : List Char} (h : ¬ opening <:+: cs) : block? cs = none := by
  rw [block?, splitFirst?_eq_none_iff.mpr h]

/-- The blocks are read in their order, and nothing else is. -/
theorem blocks_documented {front : List Char} {parts : List (List Char × List Char)}
    (hfront : ¬ opening <:+: front)
    (hparts : ∀ p ∈ parts, p.1 ≠ [] ∧ ¬ ending <:+: p.1 ∧ ¬ opening <:+: p.2) :
    blocks (documented front parts) = parts.map Prod.fst := by
  induction parts generalizing front with
  | nil =>
      have hnone : block? (documented front []) = none := by
        apply block?_eq_none
        simpa [documented] using hfront
      unfold blocks
      split
      · rename_i block rest hsome
        rw [hnone] at hsome
        cases hsome
      · rfl
  | cons p parts ih =>
      obtain ⟨⟨hne, hblock, hafter⟩, hrest⟩ := List.forall_mem_cons.mp hparts
      have hsome : block? (documented front (p :: parts)) = some (p.1, documented p.2 parts) := by
        rw [← block?_append hfront hne hblock]
        simp [documented]
      unfold blocks
      split
      · rename_i block rest hfound
        rw [hsome] at hfound
        cases hfound
        rw [ih hafter hrest, List.map_cons]
      · rename_i hnone
        rw [hsome] at hnone
        cases hnone

/-- A class tag at the start of a text, with the name behind it: blanks follow the word, and the
name ends in front of a blank or a star. -/
def IsClassTag (cs name : List Char) : Prop :=
  ∃ gap rest, cs = "@class".toList ++ (gap ++ (name ++ rest)) ∧
    (gap ≠ [] ∧ ∀ c ∈ gap, isBlank c = true) ∧
    (name ≠ [] ∧ ∀ c ∈ name, isBlank c = false ∧ c ≠ '*') ∧
    ∀ c, rest.head? = some c → isBlank c = true ∨ c = '*'

/-- The name behind the first class tag that has one. -/
def FirstClass (block name : List Char) : Prop :=
  ∃ i, IsClassTag (block.drop i) name ∧ ∀ j < i, ∀ other, ¬ IsClassTag (block.drop j) other

theorem isNameChar_iff {c : Char} : isNameChar c = true ↔ isBlank c = false ∧ c ≠ '*' := by
  simp [isNameChar]

theorem takeWhile_trimStart {gap name rest : List Char} (hgap : ∀ c ∈ gap, isBlank c = true)
    (hne : name ≠ []) (hname : ∀ c ∈ name, isNameChar c = true)
    (hrest : ∀ c, rest.head? = some c → isNameChar c = false) :
    (trimStart (gap ++ (name ++ rest))).takeWhile isNameChar = name := by
  have htrim : trimStart (gap ++ (name ++ rest)) = name ++ rest := by
    obtain ⟨c, cs, rfl⟩ := List.exists_cons_of_ne_nil hne
    have hc := (isNameChar_iff.mp (hname c List.mem_cons_self)).1
    rw [trimStart, List.dropWhile_append_of_pos hgap, List.cons_append,
      List.dropWhile_cons_of_neg (by simp [hc])]
  rw [htrim, List.takeWhile_append_of_pos hname]
  cases rest with
  | nil => simp
  | cons c rest => simp [hrest c rfl]

theorem isClassTag_of_tagName? {cs name : List Char} (h : tagName? cs = some name) :
    IsClassTag cs name := by
  unfold tagName? at h
  split at h
  · rename_i c behind hafter
    simp only at h
    split at h
    · rename_i htag
      obtain rfl := Option.some.inj h
      rw [Bool.and_eq_true] at htag
      obtain ⟨hc, hname⟩ := htag
      have hsplit : behind = behind.takeWhile isBlank ++
          ((trimStart behind).takeWhile isNameChar ++
            (trimStart behind).dropWhile isNameChar) := by
        rw [List.takeWhile_append_dropWhile, trimStart, List.takeWhile_append_dropWhile]
      refine ⟨c :: behind.takeWhile isBlank, (trimStart behind).dropWhile isNameChar, ?_,
        ⟨by simp, ?_⟩, ⟨by simpa using hname, ?_⟩, ?_⟩
      · rw [List.cons_append, ← hsplit]
        exact after?_eq_some_iff.mp hafter
      · exact List.forall_mem_cons.mpr ⟨hc, fun d hd => List.mem_takeWhile_imp hd⟩
      · exact fun d hd => isNameChar_iff.mp (List.mem_takeWhile_imp hd)
      · intro d hd
        have hstop := List.head?_dropWhile_not isNameChar (trimStart behind)
        rw [hd] at hstop
        simpa [isNameChar, or_iff_not_imp_left] using hstop
    · cases h
  · cases h

theorem IsClassTag.tagName?_eq {cs name : List Char} (h : IsClassTag cs name) :
    tagName? cs = some name := by
  obtain ⟨gap, rest, rfl, ⟨hne, hgap⟩, ⟨hnonempty, hname⟩, hrest⟩ := h
  obtain ⟨c, gap, rfl⟩ := List.exists_cons_of_ne_nil hne
  obtain ⟨hc, hgap⟩ := List.forall_mem_cons.mp hgap
  have hafter : after? ['@', 'c', 'l', 'a', 's', 's']
      ("@class".toList ++ (c :: gap ++ (name ++ rest))) = some (c :: (gap ++ (name ++ rest))) :=
    after?_eq_some_iff.mpr rfl
  have hstop : ∀ d, rest.head? = some d → isNameChar d = false :=
    fun d hd => by simpa [isNameChar, or_iff_not_imp_left] using hrest d hd
  have hread :=
    takeWhile_trimStart hgap hnonempty (fun d hd => isNameChar_iff.mpr (hname d hd)) hstop
  rw [tagName?, hafter]
  simp [hread, hc, hnonempty]

/-- A class tag at the start of a block is the first one. -/
theorem IsClassTag.firstClass_iff {block found name : List Char} (h : IsClassTag block found) :
    FirstClass block name ↔ found = name := by
  constructor
  · rintro ⟨i, hname, hfirst⟩
    cases i with
    | zero => exact Option.some.inj (h.tagName?_eq.symm.trans hname.tagName?_eq)
    | succ i => exact absurd h (hfirst 0 (Nat.succ_pos i) found)
  · rintro rfl
    exact ⟨0, h, by simp⟩

theorem firstClass_cons_iff {c : Char} {cs name : List Char}
    (h : ∀ other, ¬ IsClassTag (c :: cs) other) :
    FirstClass (c :: cs) name ↔ FirstClass cs name := by
  constructor
  · rintro ⟨i, hname, hfirst⟩
    cases i with
    | zero => exact absurd hname (h name)
    | succ i => exact ⟨i, hname, fun j hj => hfirst (j + 1) (Nat.succ_lt_succ hj)⟩
  · rintro ⟨i, hname, hfirst⟩
    refine ⟨i + 1, hname, fun j hj => ?_⟩
    cases j with
    | zero => exact h
    | succ j => exact hfirst j (Nat.lt_of_succ_lt_succ hj)

theorem className?_eq_some_iff {block name : List Char} :
    className? block = some name ↔ FirstClass block name := by
  induction block with
  | nil =>
      refine iff_of_false nofun ?_
      rintro ⟨i, ⟨gap, rest, hnil, -⟩, -⟩
      simp at hnil
  | cons c cs ih =>
      rw [className?]
      cases htag : tagName? (c :: cs) with
      | some found =>
          rw [Option.some_or, Option.some.injEq, (isClassTag_of_tagName? htag).firstClass_iff]
      | none =>
          have hnone : ∀ other, ¬ IsClassTag (c :: cs) other := by
            intro other h
            rw [h.tagName?_eq] at htag
            cases htag
          rw [Option.none_or, ih, firstClass_cons_iff hnone]

/-- Somewhere in a block stands the private tag as a word of its own. -/
def HasPrivateTag (block : List Char) : Prop :=
  ∃ before rest, block = before ++ ("@private".toList ++ rest) ∧
    ∀ c, rest.head? = some c → isWordChar c = false

theorem startsWithPrivate_iff {cs : List Char} : startsWithPrivate cs = true ↔
    ∃ rest, cs = "@private".toList ++ rest ∧ ∀ c, rest.head? = some c → isWordChar c = false := by
  have hends : ∀ rest, endsWord rest = true ↔
      ∀ c, rest.head? = some c → isWordChar c = false := by
    intro rest
    cases rest <;> simp [endsWord]
  simp only [startsWithPrivate, Option.any_eq_true, after?_eq_some_iff, hends]
  rfl

theorem isPrivate_iff {block : List Char} : isPrivate block = true ↔ HasPrivateTag block := by
  induction block with
  | nil =>
      refine iff_of_false nofun ?_
      rintro ⟨before, rest, hnil, -⟩
      simp at hnil
  | cons c cs ih =>
      rw [isPrivate, Bool.or_eq_true, startsWithPrivate_iff, ih]
      constructor
      · rintro (⟨rest, hcs, hrest⟩ | ⟨before, rest, hcs, hrest⟩)
        · exact ⟨[], rest, hcs, hrest⟩
        · exact ⟨c :: before, rest, by rw [hcs]; rfl, hrest⟩
      · rintro ⟨before, rest, hcs, hrest⟩
        cases before with
        | nil => exact .inl ⟨rest, hcs, hrest⟩
        | cons d before => exact .inr ⟨before, rest, (List.cons.inj hcs).2, hrest⟩

theorem hides_iff {id block : List Char} : hides id block = true ↔
    HasPrivateTag block ∧
      ∃ name, FirstClass block name ∧ canonicalId name = canonicalId id := by
  simp only [hides, Bool.and_eq_true, Option.any_eq_true, className?_eq_some_iff, isPrivate_iff,
    beq_iff_eq, and_comm]

/-- A module is held back as private exactly when a documentation block of its file has the private
tag and its first usable class tag names the module. Stars and slashes around the blocks, class tags
without a name and other classes of the file make no difference. -/
theorem admits_eq_false_iff_documented {source : String} {front : List Char}
    {parts : List (List Char × List Char)} (hsource : source.toList = documented front parts)
    (hfront : ¬ opening <:+: front)
    (hparts : ∀ p ∈ parts, p.1 ≠ [] ∧ ¬ ending <:+: p.1 ∧ ¬ opening <:+: p.2) (id : String) :
    Expose.unlessPrivate.admits id source = false ↔
      ∃ p ∈ parts, HasPrivateTag p.1 ∧
        ∃ name, FirstClass p.1 name ∧ canonicalId name = canonicalId id.toList := by
  rw [Expose.admits, isHidden, hsource, blocks_documented hfront hparts]
  simp only [Bool.not_eq_false', List.any_map, List.any_eq_true, Function.comp_apply, hides_iff]

/-- A file whose block has stars and slashes at its edges and a class tag without a name. -/
def starredSource : String :=
  "/*/*** @class * @class ui/Bar\n * @private.*/**/define('ui.Bar', [], f);"

/-- The block of the file and what follows it. -/
def starredParts : List (List Char × List Char) :=
  [("* @class * @class ui/Bar\n * @private.".toList, "**/define('ui.Bar', [], f);".toList)]

theorem admits_eq_false_iff_documented_starred :
    starredSource.toList = documented "/*".toList starredParts ∧ ¬ opening <:+: "/*".toList ∧
      (∀ p ∈ starredParts, p.1 ≠ [] ∧ ¬ ending <:+: p.1 ∧ ¬ opening <:+: p.2) ∧
      Expose.unlessPrivate.admits "ui.Bar" starredSource = false ∧
      Expose.unlessPrivate.admits "ui.Foo" starredSource = true := by
  have hsource : starredSource.toList = documented "/*".toList starredParts := by decide
  have hfront : ¬ opening <:+: "/*".toList := by
    rw [← occurs_iff_infix]
    decide
  have hparts : ∀ p ∈ starredParts, p.1 ≠ [] ∧ ¬ ending <:+: p.1 ∧ ¬ opening <:+: p.2 := by
    simp only [← occurs_iff_infix]
    decide
  refine ⟨hsource, hfront, hparts, ?_, ?_⟩
  · apply (admits_eq_false_iff_documented hsource hfront hparts "ui.Bar").mpr
    exact ⟨_, List.mem_singleton_self _, isPrivate_iff.mp (by decide), "ui/Bar".toList,
      className?_eq_some_iff.mp (by decide), by decide⟩
  · rw [← Bool.not_eq_false, admits_eq_false_iff_documented hsource hfront hparts]
    rintro ⟨p, hp, -, name, hname, hsame⟩
    obtain rfl := List.mem_singleton.mp hp
    have hbar : className? "* @class * @class ui/Bar\n * @private.".toList =
        some "ui/Bar".toList := by
      decide
    obtain rfl := Option.some.inj (hbar.symm.trans (className?_eq_some_iff.mpr hname))
    exact absurd hsame (by decide)

end DefineBundle.ClassDoc
