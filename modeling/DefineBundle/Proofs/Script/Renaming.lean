import DefineBundle.Proofs.Lists.Traversals
import DefineBundle.Script.DefineCall

/-!
# Renaming undone

Renaming the ids of a script puts identifiers in the place of string literals, in the arguments of
its outermost calls of `define` and nowhere else. When these identifiers are not used in the script
itself, putting the literals back gives the script again, up to the way in which the literals were
written.
-/
namespace DefineBundle.Script

/-- The name of an identifier. -/
def Form.identifier? : Form → Option String
  | .identifier n => some n
  | _ => none

/-- The value of a string literal, and whether it is written with lone surrogates. -/
def Form.literal? : Form → Option (String × Bool)
  | .string v l => some (v, l)
  | _ => none

namespace Tree

mutual

/-- The names of all identifiers in a tree, in source order. -/
def identifiers : Tree → List String
  | node f ps => f.identifier?.toList ++ identifiersAmong ps
termination_by structural t => t

/-- The names of all identifiers in any of the trees. -/
def identifiersAmong : List Tree → List String
  | [] => []
  | t :: ts => identifiers t ++ identifiersAmong ts
termination_by structural ts => ts

end

mutual

/-- The tree with nothing left of its string literals but their values; `mark` says what becomes of
the mark of lone surrogates. -/
def literalsBy (mark : Bool → Bool) : Tree → Tree
  | node f ps => match f.literal? with
    | some (v, l) => leaf (.string v (mark l))
    | none => node f (literalsByAmong mark ps)
termination_by structural t => t

def literalsByAmong (mark : Bool → Bool) : List Tree → List Tree
  | [] => []
  | t :: ts => literalsBy mark t :: literalsByAmong mark ts
termination_by structural ts => ts

end

mutual

/-- The tree without the parts that are to be dropped, and with a string literal for each identifier
that stands for one. -/
def restored (drops : Tree → Bool) (ids : String → Option String) : Tree → Tree
  | node f ps => match f.identifier?.bind ids with
    | some id => leaf (.string id false)
    | none => node f (restoredAmong drops ids ps)
termination_by structural t => t

def restoredAmong (drops : Tree → Bool) (ids : String → Option String) : List Tree → List Tree
  | [] => []
  | t :: ts =>
      if drops t then restoredAmong drops ids ts
      else restored drops ids t :: restoredAmong drops ids ts
termination_by structural ts => ts

end

/-- The variable that a declarator declares, if it is no pattern. -/
def declared? (t : Tree) : Option String :=
  if t.form = .declarator then t.parts.head?.bind (·.form.identifier?) else none

def firstDeclared? (t : Tree) : Option String :=
  if t.form = .declaration .var then t.parts.head?.bind declared? else none

/-- The id and the dependencies among the arguments of a call of `define`. -/
def defineLiterals : List Tree → List Tree
  | id :: node .array es :: _ => id :: es
  | id :: _ => [id]
  | [] => []

section
variable {mark : Bool → Bool} {drops : Tree → Bool} {ids : String → Option String}
  {names : String → Option String}

theorem identifiersAmong_eq (ts : List Tree) : identifiersAmong ts = ts.flatMap identifiers := by
  induction ts with
  | nil => rfl
  | cons t ts ih => rw [identifiersAmong, ih, List.flatMap_cons]

theorem defineCallsAmong_eq (ts : List Tree) : defineCallsAmong ts = ts.flatMap defineCalls := by
  induction ts with
  | nil => rfl
  | cons t ts ih => rw [defineCallsAmong, ih, List.flatMap_cons]

theorem literalsByAmong_eq (ts : List Tree) :
    literalsByAmong mark ts = ts.map (literalsBy mark) := by
  induction ts with
  | nil => rfl
  | cons t ts ih => rw [literalsByAmong, ih, List.map_cons]

theorem restoredAmong_eq (ts : List Tree) :
    restoredAmong drops ids ts = (ts.filter (!drops ·)).map (restored drops ids) := by
  induction ts with
  | nil => rfl
  | cons t ts ih =>
      rw [restoredAmong, ih]
      cases hdrops : drops t <;> simp [hdrops]

theorem renameDefinesAmong_eq (ts : List Tree) :
    renameDefinesAmong names ts = ts.map (renameDefines names) := by
  induction ts with
  | nil => rfl
  | cons t ts ih => rw [renameDefinesAmong, ih, List.map_cons]

theorem identifiersAmong_append (ts us : List Tree) :
    identifiersAmong (ts ++ us) = identifiersAmong ts ++ identifiersAmong us := by
  simp [identifiersAmong_eq]

theorem defineCallsAmong_append (ts us : List Tree) :
    defineCallsAmong (ts ++ us) = defineCallsAmong ts ++ defineCallsAmong us := by
  simp [defineCallsAmong_eq]

theorem literalsByAmong_append (ts us : List Tree) :
    literalsByAmong mark (ts ++ us) = literalsByAmong mark ts ++ literalsByAmong mark us := by
  simp [literalsByAmong_eq]

theorem restoredAmong_append (ts us : List Tree) :
    restoredAmong drops ids (ts ++ us) =
      restoredAmong drops ids ts ++ restoredAmong drops ids us := by
  simp [restoredAmong_eq]

theorem callArguments?_eq_some_iff {name : String} {f : Form} {ps arguments : List Tree} :
    callArguments? name (node f ps) = some arguments ↔
      ∃ o p qs, f = .call o p ∧ ps = node (.identifier name) qs :: arguments := by
  constructor
  · intro h
    unfold callArguments? at h
    split at h
    · rename_i o p n qs rest he
      cases he
      split at h
      · rename_i hn
        obtain rfl : n = name := by simpa using hn
        cases h
        exact ⟨o, p, qs, rfl, rfl⟩
      · cases h
    · cases h
  · rintro ⟨o, p, qs, rfl, rfl⟩
    simp [callArguments?]

/-- Whether a node is a call of a name can be told from the form of its first part. -/
theorem callArguments?_eq_none {name : String} {f : Form} {ps ps' : List Tree}
    (h : callArguments? name (node f ps) = none) (hhead : ps'.head?.map form = ps.head?.map form) :
    callArguments? name (node f ps') = none := by
  rw [Option.eq_none_iff_forall_ne_some]
  intro arguments he
  obtain ⟨o, p, qs, rfl, rfl⟩ := callArguments?_eq_some_iff.mp he
  cases ps with
  | nil => cases hhead
  | cons callee rest =>
      obtain ⟨g, rs⟩ := callee
      obtain rfl : .identifier name = g := Option.some.inj hhead
      rw [callArguments?_eq_some_iff.mpr ⟨o, p, rs, rfl, rfl⟩] at h
      cases h

theorem renameDefines_of_none {f : Form} {ps : List Tree}
    (h : callArguments? "define" (node f ps) = none) :
    renameDefines names (node f ps) = node f (renameDefinesAmong names ps) := by
  unfold renameDefines
  rw [h]
  cases ps <;> rfl

theorem renameDefines_of_some {f : Form} {callee : Tree} {ps arguments : List Tree}
    (h : callArguments? "define" (node f (callee :: ps)) = some arguments) :
    renameDefines names (node f (callee :: ps)) =
      node f (callee :: renameArguments names arguments) := by
  unfold renameDefines
  rw [h]

theorem form_renameDefines (t : Tree) : (renameDefines names t).form = t.form := by
  obtain ⟨f, ps⟩ := t
  cases h : callArguments? "define" (node f ps) with
  | none => rw [renameDefines_of_none h]; rfl
  | some arguments =>
      obtain ⟨o, p, qs, rfl, rfl⟩ := callArguments?_eq_some_iff.mp h
      rw [renameDefines_of_some h]
      rfl

theorem head?_parts_renameDefines {t : Tree} (h : ∀ o p, t.form ≠ .call o p) :
    (renameDefines names t).parts.head? = t.parts.head?.map (renameDefines names) := by
  obtain ⟨f, ps⟩ := t
  have hnone : callArguments? "define" (node f ps) = none := by
    rw [Option.eq_none_iff_forall_ne_some]
    intro arguments he
    obtain ⟨o, p, -, hf, -⟩ := callArguments?_eq_some_iff.mp he
    exact h o p hf
  rw [renameDefines_of_none hnone]
  cases ps <;> rfl

theorem declared?_renameDefines (t : Tree) : declared? (renameDefines names t) = declared? t := by
  unfold declared?
  rw [form_renameDefines]
  split
  · rename_i hf
    rw [head?_parts_renameDefines (by simp [hf])]
    cases t.parts.head? with
    | none => rfl
    | some p => simp [form_renameDefines]
  · rfl

theorem firstDeclared?_renameDefines (t : Tree) :
    firstDeclared? (renameDefines names t) = firstDeclared? t := by
  unfold firstDeclared?
  rw [form_renameDefines]
  split
  · rename_i hf
    rw [head?_parts_renameDefines (by simp [hf])]
    cases t.parts.head? with
    | none => rfl
    | some p => simp [declared?_renameDefines]
  · rfl

theorem identifiers_subset {f : Form} {ps : List Tree} :
    identifiersAmong ps ⊆ identifiers (node f ps) := by
  rw [identifiers]
  exact List.subset_append_right _ _

theorem identifiers_subset_among {t : Tree} {ts : List Tree} (h : t ∈ ts) :
    identifiers t ⊆ identifiersAmong ts := by
  rw [identifiersAmong_eq]
  exact fun n hn => List.mem_flatMap.mpr ⟨t, h, hn⟩

theorem identifiers_subset_parts {t p : Tree} (h : p ∈ t.parts) :
    identifiers p ⊆ identifiers t := by
  obtain ⟨f, ps⟩ := t
  exact List.Subset.trans (identifiers_subset_among h) identifiers_subset

theorem mem_identifiers_of_firstDeclared? {t : Tree} {n : String} (h : firstDeclared? t = some n) :
    n ∈ t.identifiers := by
  unfold firstDeclared? at h
  split at h
  · obtain ⟨d, hd, h⟩ := Option.bind_eq_some_iff.mp h
    unfold declared? at h
    split at h
    · obtain ⟨⟨f, ps⟩, hp, hn⟩ := Option.bind_eq_some_iff.mp h
      have hmem : n ∈ identifiers (node f ps) := by
        rw [identifiers]
        exact List.mem_append_left _ (by simpa [form] using hn)
      exact identifiers_subset_parts (List.mem_of_head? hd)
        (identifiers_subset_parts (List.mem_of_head? hp) hmem)
    · cases h
  · cases h

/-- The ids are found again by their names, and what is dropped declares a name first. -/
structure Undoes (names ids : String → Option String) (drops : Tree → Bool) : Prop where
  id_of_name : ∀ {id name}, names id = some name → ids name = some id
  name_first : ∀ {t}, drops t = true → ∃ n, firstDeclared? t = some n ∧ ids n ≠ none

/-- No identifier of a tree is a name that stands for an id. -/
def Free (ids : String → Option String) (t : Tree) : Prop :=
  ∀ n ∈ t.identifiers, ids n = none

def FreeAmong (ids : String → Option String) (ts : List Tree) : Prop :=
  ∀ n ∈ identifiersAmong ts, ids n = none

theorem Free.among {f : Form} {ps : List Tree} (h : Free ids (node f ps)) : FreeAmong ids ps :=
  fun n hn => h n (identifiers_subset hn)

theorem FreeAmong.head {t : Tree} {ts : List Tree} (h : FreeAmong ids (t :: ts)) : Free ids t :=
  fun n hn => h n (by rw [identifiersAmong]; exact List.mem_append_left _ hn)

theorem FreeAmong.tail {t : Tree} {ts : List Tree} (h : FreeAmong ids (t :: ts)) :
    FreeAmong ids ts :=
  fun n hn => h n (by rw [identifiersAmong]; exact List.mem_append_right _ hn)

theorem FreeAmong.of_append {ts us : List Tree} (h : FreeAmong ids (ts ++ us)) :
    FreeAmong ids ts ∧ FreeAmong ids us := by
  unfold FreeAmong at h
  rwa [identifiersAmong_append, List.forall_mem_append] at h

theorem Free.bind_eq_none {f : Form} {ps : List Tree} (h : Free ids (node f ps)) :
    f.identifier?.bind ids = none := by
  cases hf : f.identifier? with
  | none => rfl
  | some n => exact h n (by rw [identifiers, hf]; exact List.mem_append_left _ (by simp))

theorem Undoes.drops_eq_false (hu : Undoes names ids drops) {t t' : Tree} (h : Free ids t)
    (hsame : firstDeclared? t' = firstDeclared? t) : drops t' = false := by
  rw [← Bool.not_eq_true]
  intro hdrops
  obtain ⟨n, hn, hid⟩ := hu.name_first hdrops
  exact hid (h n (mem_identifiers_of_firstDeclared? (hsame ▸ hn)))

theorem restored_node {f : Form} {ps : List Tree} (h : f.identifier?.bind ids = none) :
    restored drops ids (node f ps) = node f (restoredAmong drops ids ps) := by
  rw [restored, h]

theorem restoredAmong_cons {t : Tree} {ts : List Tree} (h : drops t = false) :
    restoredAmong drops ids (t :: ts) = restored drops ids t :: restoredAmong drops ids ts := by
  rw [restoredAmong, h]
  rfl

mutual

theorem restored_of_free (hu : Undoes names ids drops) :
    ∀ {t : Tree}, Free ids t → restored drops ids t = t
  | node f ps, h => by
      rw [restored_node h.bind_eq_none, restoredAmong_of_free hu h.among]

theorem restoredAmong_of_free (hu : Undoes names ids drops) :
    ∀ {ts : List Tree}, FreeAmong ids ts → restoredAmong drops ids ts = ts
  | [], _ => by rw [restoredAmong]
  | t :: ts, h => by
      rw [restoredAmong_cons (hu.drops_eq_false h.head rfl), restored_of_free hu h.head,
        restoredAmong_of_free hu h.tail]

end

/-- The mark of a literal is lost without a trace if it has a name. -/
def LosesMark (names : String → Option String) (mark : Bool → Bool) (t : Tree) : Prop :=
  ∀ e ∈ t.form.literal?, names e.1 ≠ none → mark e.2 = mark false

variable (hu : Undoes names ids drops)
include hu

theorem literalsBy_restored_renameLiteral {t : Tree} (h : Free ids t)
    (hmark : LosesMark names mark t) :
    literalsBy mark (restored drops ids (renameLiteral names t)) = literalsBy mark t := by
  unfold renameLiteral
  split
  · rename_i v l ps
    cases hn : names v with
    | none => rw [restored_of_free hu h]
    | some n =>
        have hrestored : restored drops ids (leaf (.identifier n)) = leaf (.string v false) := by
          simp [restored, Form.identifier?, hu.id_of_name hn]
        rw [hrestored]
        simp [literalsBy, Form.literal?, hmark (v, l) rfl (by simp [hn])]
  · rw [restored_of_free hu h]

theorem drops_renameLiteral {t : Tree} (h : Free ids t) :
    drops (renameLiteral names t) = false := by
  refine hu.drops_eq_false h ?_
  unfold renameLiteral
  split
  · split <;> rfl
  · rfl

theorem literalsByAmong_restored_renameLiteral {ts : List Tree} (h : FreeAmong ids ts)
    (hmark : ∀ t ∈ ts, LosesMark names mark t) :
    literalsByAmong mark (restoredAmong drops ids (ts.map (renameLiteral names))) =
      literalsByAmong mark ts := by
  induction ts with
  | nil => rw [List.map_nil, restoredAmong]
  | cons t ts ih =>
      rw [List.forall_mem_cons] at hmark
      rw [List.map_cons, restoredAmong_cons (drops_renameLiteral hu h.head), literalsByAmong,
        literalsBy_restored_renameLiteral hu h.head hmark.1, ih h.tail hmark.2, literalsByAmong]

theorem literalsByAmong_restored_renameArguments {arguments : List Tree}
    (h : FreeAmong ids arguments) (hmark : ∀ t ∈ defineLiterals arguments, LosesMark names mark t) :
    literalsByAmong mark (restoredAmong drops ids (renameArguments names arguments)) =
      literalsByAmong mark arguments := by
  have hfirst : ∀ {id : Tree} {rest rest' : List Tree}, FreeAmong ids (id :: rest) →
      LosesMark names mark id →
      literalsByAmong mark (restoredAmong drops ids rest') = literalsByAmong mark rest →
      literalsByAmong mark (restoredAmong drops ids (renameLiteral names id :: rest')) =
        literalsByAmong mark (id :: rest) := by
    intro id rest rest' hfree hid hrest
    rw [restoredAmong_cons (drops_renameLiteral hu hfree.head), literalsByAmong, literalsByAmong,
      literalsBy_restored_renameLiteral hu hfree.head hid, hrest]
  cases arguments with
  | nil => rw [renameArguments, restoredAmong]
  | cons id rest =>
      by_cases harray : ∃ es rest', rest = node .array es :: rest'
      · obtain ⟨es, rest', rfl⟩ := harray
        rw [defineLiterals, List.forall_mem_cons] at hmark
        refine hfirst h hmark.1 ?_
        have hkept : drops (node .array (es.map (renameLiteral names))) = false :=
          hu.drops_eq_false h.tail.head rfl
        have helements := literalsByAmong_restored_renameLiteral hu h.tail.head.among hmark.2
        rw [restoredAmong_cons hkept, restored_node rfl, restoredAmong_of_free hu h.tail.tail]
        simp only [literalsByAmong, literalsBy, Form.literal?, helements]
      · have hrenamed : renameArguments names (id :: rest) = renameLiteral names id :: rest := by
          rw [renameArguments]
          exact fun es rest' he => harray ⟨es, rest', he⟩
        have hid : id ∈ defineLiterals (id :: rest) := by
          unfold defineLiterals
          split <;> simp_all
        rw [hrenamed]
        exact hfirst h (hmark id hid) (by rw [restoredAmong_of_free hu h.tail])

omit hu

mutual

/-- Renaming is undone, but for the marks of the literals that were renamed. -/
theorem literalsBy_restored_renameDefines (hu : Undoes names ids drops) : ∀ {t : Tree},
    Free ids t →
    (∀ arguments ∈ defineCalls t, ∀ u ∈ defineLiterals arguments, LosesMark names mark u) →
    literalsBy mark (restored drops ids (renameDefines names t)) = literalsBy mark t
  | node f ps, h, hmark => by
      rw [defineCalls] at hmark
      cases hcall : callArguments? "define" (node f ps) with
      | none =>
          rw [hcall] at hmark
          rw [renameDefines_of_none hcall, restored_node h.bind_eq_none, literalsBy, literalsBy,
            literalsByAmong_restored_renameDefines hu h.among hmark]
      | some arguments =>
          rw [hcall] at hmark
          have hliterals := hmark arguments (List.mem_singleton_self _)
          obtain ⟨o, p, qs, rfl, rfl⟩ := callArguments?_eq_some_iff.mp hcall
          have hcallee := h.among.head
          rw [renameDefines_of_some hcall, restored_node rfl,
            restoredAmong_cons (hu.drops_eq_false hcallee rfl), restored_of_free hu hcallee]
          have harguments := literalsByAmong_restored_renameArguments hu h.among.tail hliterals
          simp only [literalsBy, Form.literal?, literalsByAmong, harguments]

theorem literalsByAmong_restored_renameDefines (hu : Undoes names ids drops) : ∀ {ts : List Tree},
    FreeAmong ids ts →
    (∀ arguments ∈ defineCallsAmong ts, ∀ u ∈ defineLiterals arguments, LosesMark names mark u) →
    literalsByAmong mark (restoredAmong drops ids (renameDefinesAmong names ts)) =
      literalsByAmong mark ts
  | [], _, _ => by rw [renameDefinesAmong, restoredAmong]
  | t :: ts, h, hmark => by
      rw [defineCallsAmong, List.forall_mem_append] at hmark
      rw [renameDefinesAmong,
        restoredAmong_cons (hu.drops_eq_false h.head (firstDeclared?_renameDefines t)),
        literalsByAmong, literalsByAmong, literalsBy_restored_renameDefines hu h.head hmark.1,
        literalsByAmong_restored_renameDefines hu h.tail hmark.2]

end

end

section
variable {names : String → Option String}

mutual

theorem defineCalls_renameDefines : ∀ t : Tree,
    defineCalls (renameDefines names t) = (defineCalls t).map (renameArguments names)
  | node f ps => by
      cases hcall : callArguments? "define" (node f ps) with
      | none =>
          have hrenamed :
              callArguments? "define" (node f (renameDefinesAmong names ps)) = none := by
            refine callArguments?_eq_none hcall ?_
            cases ps with
            | nil => rw [renameDefinesAmong]
            | cons p ps => simp [renameDefinesAmong, form_renameDefines]
          rw [renameDefines_of_none hcall, defineCalls, defineCalls, hcall, hrenamed]
          exact defineCallsAmong_renameDefinesAmong ps
      | some arguments =>
          obtain ⟨o, p, qs, rfl, rfl⟩ := callArguments?_eq_some_iff.mp hcall
          rw [renameDefines_of_some hcall, defineCalls, defineCalls, hcall]
          simp [callArguments?]

theorem defineCallsAmong_renameDefinesAmong : ∀ ts : List Tree,
    defineCallsAmong (renameDefinesAmong names ts) =
      (defineCallsAmong ts).map (renameArguments names)
  | [] => by rw [renameDefinesAmong, defineCallsAmong, List.map_nil]
  | t :: ts => by
      rw [renameDefinesAmong, defineCallsAmong, defineCallsAmong, List.map_append,
        defineCalls_renameDefines t, defineCallsAmong_renameDefinesAmong ts]

end

theorem renameLiteral_of_none (h : ∀ id, names id = none) (t : Tree) :
    renameLiteral names t = t := by
  unfold renameLiteral
  split
  · rw [h]
  · rfl

theorem renameArguments_of_none (h : ∀ id, names id = none) (arguments : List Tree) :
    renameArguments names arguments = arguments := by
  have hid : renameLiteral names = id := funext (renameLiteral_of_none h)
  unfold renameArguments
  split <;> simp [hid]

mutual

theorem renameDefines_of_forall_none (h : ∀ id, names id = none) :
    ∀ t : Tree, renameDefines names t = t
  | node f ps => by
      cases hcall : callArguments? "define" (node f ps) with
      | none => rw [renameDefines_of_none hcall, renameDefinesAmong_of_forall_none h ps]
      | some arguments =>
          obtain ⟨o, p, qs, rfl, rfl⟩ := callArguments?_eq_some_iff.mp hcall
          rw [renameDefines_of_some hcall, renameArguments_of_none h]

theorem renameDefinesAmong_of_forall_none (h : ∀ id, names id = none) :
    ∀ ts : List Tree, renameDefinesAmong names ts = ts
  | [] => by rw [renameDefinesAmong]
  | t :: ts => by
      rw [renameDefinesAmong, renameDefines_of_forall_none h t,
        renameDefinesAmong_of_forall_none h ts]

end

end

theorem exists_of_stringValue? {t : Tree} {v : String} (h : stringValue? t = some v) :
    ∃ l ps, t = node (.string v l) ps := by
  unfold stringValue? at h
  split at h
  · cases h
    exact ⟨_, _, rfl⟩
  · cases h

theorem exists_of_deps? {id : String} {t : Tree} {deps : List String}
    (h : Declaration.deps? id t = .ok deps) :
    ∃ es, t = node .array es ∧ es.mapM stringValue? = some deps := by
  unfold Declaration.deps? at h
  split at h
  · rename_i es
    split at h
    · rename_i found hes
      cases h
      exact ⟨es, rfl, hes⟩
    · cases h
  · cases h

theorem exists_of_ofArguments? {arguments : List Tree} {d : Declaration}
    (h : Declaration.ofArguments? arguments = .ok d) : ∃ id es rest,
      arguments = id :: node .array es :: rest ∧ stringValue? id = some d.id ∧
        es.mapM stringValue? = some d.deps := by
  unfold Declaration.ofArguments? at h
  split at h
  · cases h
  · rename_i first rest
    split at h
    · cases h
    · rename_i id hid
      dsimp only at h
      split at h
      · cases h
      · rename_i second rest
        obtain ⟨deps, hdeps, h⟩ := exists_of_bind_eq_ok h
        obtain ⟨es, rfl, hes⟩ := exists_of_deps? hdeps
        split at h
        · cases h
          exact ⟨first, es, rest, rfl, hid, hes⟩
        · cases h

section
variable {names : String → Option String}

theorem exists_renameLiteral {t : Tree} {v : String} (h : stringValue? t = some v)
    (hnamed : names v ≠ none) :
    ∃ n, names v = some n ∧ renameLiteral names t = leaf (.identifier n) := by
  obtain ⟨l, ps, rfl⟩ := exists_of_stringValue? h
  obtain ⟨n, hn⟩ := Option.ne_none_iff_exists'.mp hnamed
  exact ⟨n, hn, by simp [renameLiteral, hn]⟩

/-- No literal is left of a well-formed call whose id and dependencies all have names. -/
theorem exists_of_mem_defineLiterals {arguments : List Tree} {d : Declaration}
    (h : Declaration.ofArguments? arguments = .ok d)
    (hnamed : ∀ id ∈ d.id :: d.deps, names id ≠ none) {t : Tree}
    (ht : t ∈ defineLiterals (renameArguments names arguments)) :
    ∃ id n, names id = some n ∧ t = leaf (.identifier n) := by
  obtain ⟨first, es, rest, rfl, hid, hes⟩ := exists_of_ofArguments? h
  rw [List.forall_mem_cons] at hnamed
  rw [renameArguments, defineLiterals, List.mem_cons, List.mem_map] at ht
  rcases ht with rfl | ⟨e, he, rfl⟩
  · exact ⟨d.id, exists_renameLiteral hid hnamed.1⟩
  · obtain ⟨dep, hdep, hvalue⟩ := exists_of_forall₂ (mapM_eq_some_iff.mp hes) he
    exact ⟨dep, exists_renameLiteral hvalue (hnamed.2 dep hdep)⟩

end

end Tree

end DefineBundle.Script
