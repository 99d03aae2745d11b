import DefineBundle.Proofs.Script.Splicing

/-!
# Names in a script

The names that a script mentions, and those among them that it binds. Renaming the ids of a script
adds the names that it puts in the place of literals, and it binds none. What a frame mentions and
binds is the same whatever is filled in.
-/
namespace DefineBundle.Script

/-- The first part of a name with dots between its parts. -/
def firstName (path : String) : String :=
  String.ofList (path.toList.takeWhile (· != '.'))

/-- The name that a form carries, if it is that of a variable or of a type. -/
def Form.mention? : Form → Option String
  | .identifier n | .importDefault n | .importAll n | .importName _ _ n | .importAlias n => some n
  | .enumeration _ n | .typeAlias n | .interface n => some n
  | .namespaceOf _ n | .exportName _ n _ => if n.isQuoted then none else some (firstName n.text)
  | .typeName path => some (firstName path)
  | _ => none

/-- The name that a form binds, if it carries it itself. -/
def Form.bind? : Form → Option String
  | .importDefault n | .importAll n | .importName _ _ n | .importAlias n | .enumeration _ n => some n
  | .namespaceOf _ n => if n.isQuoted then none else some (firstName n.text)
  | _ => none

namespace Tree

mutual

/-- The names that a tree mentions, in source order; a string literal mentions none. -/
def mentions : Tree → List String
  | node f ps => match f.literal? with
    | some _ => []
    | none => f.mention?.toList ++ mentionsAmong ps
termination_by structural t => t

def mentionsAmong : List Tree → List String
  | [] => []
  | t :: ts => mentions t ++ mentionsAmong ts
termination_by structural ts => ts

end

mutual

/-- The names that the target of a declaration binds; a default value is no part of it. -/
def targets : Tree → List String
  | node (.identifier n) _ => [n]
  | node (.arrayPattern _) ps => targetsAmong ps
  | node (.objectPattern _) ps => targetsAmong ps
  | node (.property _) ps => targetsAmong ps
  | node .rest ps => targetsAmong ps
  | node .decorated ps => targetsAmong ps
  | node .withDefault (t :: _) => targets t
  | _ => []
termination_by structural t => t

def targetsAmong : List Tree → List String
  | [] => []
  | t :: ts => targets t ++ targetsAmong ts
termination_by structural ts => ts

end

/-- The parts of a node that are targets of what it declares. -/
def targetParts : Form → List Tree → List Tree
  | .declarator, ps => ps.take 1
  | .function _ _ _, ps => ps.take 1
  | .catchClause, ps => ps.take 1
  | .classOf, ps => (ps.drop 1).take 1
  | .parameters, ps => ps
  | _, _ => []

/-- The names that a node binds itself. -/
def ownBinds (f : Form) (ps : List Tree) : List String :=
  f.bind?.toList ++ targetsAmong (targetParts f ps)

mutual

/-- The names that a tree binds somewhere, in source order. -/
def binds : Tree → List String
  | node f ps => match f.literal? with
    | some _ => []
    | none => ownBinds f ps ++ bindsAmong ps
termination_by structural t => t

def bindsAmong : List Tree → List String
  | [] => []
  | t :: ts => binds t ++ bindsAmong ts
termination_by structural ts => ts

end

def nameOf? (names : String → Option String) (t : Tree) : Option String :=
  t.stringValue?.bind names

mutual

/-- The names that renaming puts into a tree. -/
def inserted (names : String → Option String) : Tree → List String
  | node f ps => match f.literal? with
    | some _ => []
    | none => match callArguments? "define" (node f ps) with
      | some arguments => (defineLiterals arguments).filterMap (nameOf? names)
      | none => insertedAmong names ps
termination_by structural t => t

def insertedAmong (names : String → Option String) : List Tree → List String
  | [] => []
  | t :: ts => inserted names t ++ insertedAmong names ts
termination_by structural ts => ts

end

theorem mentionsAmong_eq (ts : List Tree) : mentionsAmong ts = ts.flatMap mentions := by
  induction ts with
  | nil => rfl
  | cons t ts ih => rw [mentionsAmong, ih, List.flatMap_cons]

theorem targetsAmong_eq (ts : List Tree) : targetsAmong ts = ts.flatMap targets := by
  induction ts with
  | nil => rfl
  | cons t ts ih => rw [targetsAmong, ih, List.flatMap_cons]

theorem bindsAmong_eq (ts : List Tree) : bindsAmong ts = ts.flatMap binds := by
  induction ts with
  | nil => rfl
  | cons t ts ih => rw [bindsAmong, ih, List.flatMap_cons]

theorem mentionsAmong_append (ts us : List Tree) :
    mentionsAmong (ts ++ us) = mentionsAmong ts ++ mentionsAmong us := by
  simp only [mentionsAmong_eq, List.flatMap_append]

theorem bindsAmong_append (ts us : List Tree) :
    bindsAmong (ts ++ us) = bindsAmong ts ++ bindsAmong us := by
  simp only [bindsAmong_eq, List.flatMap_append]

theorem targetsAmong_congr {ps ps' : List Tree} (h : ps.map targets = ps'.map targets) :
    targetsAmong ps = targetsAmong ps' := by
  rw [targetsAmong_eq, targetsAmong_eq, List.flatMap_def, List.flatMap_def, h]

theorem targets_congr {f : Form} {ps ps' : List Tree} (h : ps.map targets = ps'.map targets) :
    targets (node f ps) = targets (node f ps') := by
  cases f
  case withDefault =>
    cases ps <;> cases ps' <;> simp_all [targets]
  all_goals simp only [targets, targetsAmong_congr h]

theorem ownBinds_congr {f : Form} {ps ps' : List Tree} (h : ps.map targets = ps'.map targets) :
    ownBinds f ps = ownBinds f ps' := by
  have hparts : (targetParts f ps).map targets = (targetParts f ps').map targets := by
    cases f <;> simp only [targetParts, List.map_take, List.map_drop, h]
  rw [ownBinds, ownBinds, targetsAmong_congr hparts]

section
variable {names : String → Option String} {n : String}

theorem binds_renameLiteral (t : Tree) : binds (renameLiteral names t) = binds t := by
  obtain ⟨f, ps⟩ := t
  cases f with
  | string v l =>
      simp only [renameLiteral]
      cases names v <;> rfl
  | _ => rfl

theorem bindsAmong_renameArguments (arguments : List Tree) :
    bindsAmong (renameArguments names arguments) = bindsAmong arguments := by
  have harray : ∀ ts : List Tree, binds (node .array ts) = bindsAmong ts := fun _ => rfl
  have hmap : ∀ ts : List Tree, bindsAmong (ts.map (renameLiteral names)) = bindsAmong ts := by
    simp only [bindsAmong_eq, List.flatMap_map, binds_renameLiteral, implies_true]
  unfold renameArguments
  split
  · rw [bindsAmong, bindsAmong, bindsAmong, bindsAmong, binds_renameLiteral, harray, harray, hmap]
  · rw [bindsAmong, bindsAmong, binds_renameLiteral]
  · rfl

theorem count_mentions_renameLiteral (t : Tree) : (mentions (renameLiteral names t)).count n =
    (mentions t).count n + ((nameOf? names t).toList).count n := by
  obtain ⟨f, ps⟩ := t
  cases f with
  | string v l =>
      simp only [renameLiteral, nameOf?, stringValue?, Option.bind_some]
      cases names v with
      | none => rfl
      | some m => simp [mentions, Form.literal?, Form.mention?, mentionsAmong]
  | _ => rfl

theorem count_filterMap_cons {α : Type} {f : α → Option String} (a : α) (as : List α) :
    ((a :: as).filterMap f).count n = ((f a).toList).count n + (as.filterMap f).count n := by
  rw [List.filterMap_cons]
  cases f a with
  | none => simp
  | some m => exact @List.count_append _ _ _ [m] _

theorem count_mentionsAmong_renameLiteral (ts : List Tree) :
    (mentionsAmong (ts.map (renameLiteral names))).count n =
      (mentionsAmong ts).count n + (ts.filterMap (nameOf? names)).count n := by
  induction ts with
  | nil => rfl
  | cons t ts ih =>
      rw [List.map_cons, mentionsAmong, List.count_append, count_mentions_renameLiteral, ih,
        count_filterMap_cons, mentionsAmong, List.count_append]
      omega

theorem count_mentionsAmong_renameArguments (arguments : List Tree) :
    (mentionsAmong (renameArguments names arguments)).count n =
      (mentionsAmong arguments).count n +
        ((defineLiterals arguments).filterMap (nameOf? names)).count n := by
  unfold renameArguments
  split
  · rename_i id es rest
    have harray : ∀ ts : List Tree, mentions (node .array ts) = mentionsAmong ts := fun _ => rfl
    simp only [mentionsAmong, List.count_append, harray, count_mentions_renameLiteral,
      count_mentionsAmong_renameLiteral, defineLiterals, count_filterMap_cons]
    omega
  · rename_i id rest hno
    have hliterals : defineLiterals (id :: rest) = [id] := by
      unfold defineLiterals
      split
      · rename_i he
        cases he
        exact absurd rfl (hno _ _)
      · rename_i he
        cases he
        rfl
      · rename_i he
        cases he
    simp only [mentionsAmong, List.count_append, count_mentions_renameLiteral, hliterals,
      count_filterMap_cons]
    simp only [List.filterMap_nil, List.count_nil]
    omega
  · rfl

mutual

theorem targets_renameDefines : ∀ t : Tree, targets (renameDefines names t) = targets t
  | node f ps => by
      cases hcall : callArguments? "define" (node f ps) with
      | none => rw [renameDefines_of_none hcall, targets_congr (map_targets_renameDefinesAmong ps)]
      | some arguments =>
          obtain ⟨o, p, qs, rfl, rfl⟩ := callArguments?_eq_some_iff.mp hcall
          rw [renameDefines_of_some hcall]
          rfl

theorem map_targets_renameDefinesAmong : ∀ ts : List Tree,
    (renameDefinesAmong names ts).map targets = ts.map targets
  | [] => rfl
  | t :: ts => by
      rw [renameDefinesAmong, List.map_cons, List.map_cons, targets_renameDefines t,
        map_targets_renameDefinesAmong ts]

end

mutual

theorem binds_renameDefines : ∀ t : Tree, binds (renameDefines names t) = binds t
  | node f ps => by
      cases hcall : callArguments? "define" (node f ps) with
      | none =>
          rw [renameDefines_of_none hcall, binds, binds, bindsAmong_renameDefinesAmong ps,
            ownBinds_congr (map_targets_renameDefinesAmong ps)]
      | some arguments =>
          obtain ⟨o, p, qs, rfl, rfl⟩ := callArguments?_eq_some_iff.mp hcall
          have hbinds : ∀ ts : List Tree, binds (node (.call o p) ts) = bindsAmong ts :=
            fun _ => rfl
          rw [renameDefines_of_some hcall, hbinds, hbinds, bindsAmong, bindsAmong,
            bindsAmong_renameArguments]

theorem bindsAmong_renameDefinesAmong : ∀ ts : List Tree,
    bindsAmong (renameDefinesAmong names ts) = bindsAmong ts
  | [] => rfl
  | t :: ts => by
      rw [renameDefinesAmong, bindsAmong, bindsAmong, binds_renameDefines t,
        bindsAmong_renameDefinesAmong ts]

end

mutual

/-- Renaming adds the names that it puts for literals, and no other. -/
theorem count_mentions_renameDefines (n : String) : ∀ t : Tree,
    (mentions (renameDefines names t)).count n =
      (mentions t).count n + (inserted names t).count n
  | node f ps => by
      cases hliteral : f.literal? with
      | some literal =>
          have hcall : callArguments? "define" (node f ps) = none := by
            cases f <;> first | rfl | cases hliteral
          rw [renameDefines_of_none hcall]
          simp only [mentions, inserted, hliteral, List.count_nil]
      | none =>
          cases hcall : callArguments? "define" (node f ps) with
          | none =>
              rw [renameDefines_of_none hcall]
              simp only [mentions, inserted, hliteral, hcall, List.count_append,
                count_mentionsAmong_renameDefinesAmong n ps]
              omega
          | some arguments =>
              obtain ⟨o, p, qs, rfl, rfl⟩ := callArguments?_eq_some_iff.mp hcall
              rw [renameDefines_of_some hcall]
              simp only [mentions, inserted, hliteral, hcall, List.count_append, mentionsAmong,
                count_mentionsAmong_renameArguments]
              omega

theorem count_mentionsAmong_renameDefinesAmong (n : String) : ∀ ts : List Tree,
    (mentionsAmong (renameDefinesAmong names ts)).count n =
      (mentionsAmong ts).count n + (insertedAmong names ts).count n
  | [] => rfl
  | t :: ts => by
      simp only [renameDefinesAmong, mentionsAmong, insertedAmong, List.count_append,
        count_mentions_renameDefines n t, count_mentionsAmong_renameDefinesAmong n ts]
      omega

end

end

namespace Frame

variable {body : List Tree} {frame : Frame}

theorem targets_fill (body : List Tree) (frame : Frame) :
    targets (frame.fill body) = targets (frame.fill []) := by
  induction frame with
  | here f listed before after =>
      have hnone : ∀ ts, targets (node f ts) = [] := by
        intro ts
        rcases listed with h | rfl
        · cases f <;> first | rfl | cases h
        · rfl
      rw [fill, fill, hnone, hnone]
  | inside f before frame after ih =>
      refine targets_congr ?_
      rw [List.map_append, List.map_append, List.map_cons, List.map_cons, ih]

/-- A filled frame binds what the frame binds, and what is filled in. -/
theorem count_binds_fill (n : String) (hplain : plainLiterals (frame.fill []) = true) :
    (binds (frame.fill body)).count n =
      (binds (frame.fill [])).count n + (bindsAmong body).count n := by
  induction frame with
  | here f listed before after =>
      have hown : ∀ ts, ownBinds f ts = [] := by
        intro ts
        rcases listed with h | rfl
        · cases f <;> first | rfl | cases h
        · rfl
      simp only [fill, binds, listed.literal?_eq_none, hown, bindsAmong_append, List.append_nil,
        List.nil_append, List.count_append]
      omega
  | inside f before frame after ih =>
      obtain ⟨hliteral, hplain⟩ := plainLiterals_inside hplain
      have hown : ownBinds f (before ++ frame.fill body :: after) =
          ownBinds f (before ++ frame.fill [] :: after) := by
        refine ownBinds_congr ?_
        rw [List.map_append, List.map_append, List.map_cons, List.map_cons, targets_fill]
      simp only [fill, binds, hliteral, hown, bindsAmong_append, bindsAmong, List.count_append,
        ih hplain]
      omega

/-- A filled frame mentions what the frame mentions, and what is filled in. -/
theorem count_mentions_fill (n : String) (hplain : plainLiterals (frame.fill []) = true) :
    (mentions (frame.fill body)).count n =
      (mentions (frame.fill [])).count n + (mentionsAmong body).count n := by
  induction frame with
  | here f listed before after =>
      simp only [fill, mentions, listed.literal?_eq_none, mentionsAmong_append, List.append_nil,
        List.count_append]
      omega
  | inside f before frame after ih =>
      obtain ⟨hliteral, hplain⟩ := plainLiterals_inside hplain
      simp only [fill, mentions, hliteral, mentionsAmong_append, mentionsAmong, List.count_append,
        ih hplain]
      omega

end Frame

mutual

theorem targets_subset_mentions : ∀ t : Tree, targets t ⊆ mentions t
  | node f ps => by
      have hparts := targetsAmong_subset_mentionsAmong ps
      cases f
      case identifier n =>
        exact List.cons_subset_cons n (List.nil_subset _)
      case withDefault =>
        cases ps with
        | nil => exact List.nil_subset _
        | cons t ts =>
            exact List.Subset.trans (targets_subset_mentions t) (List.subset_append_left _ _)
      case arrayPattern | objectPattern | property | rest | decorated => exact hparts
      all_goals exact List.nil_subset _

theorem targetsAmong_subset_mentionsAmong : ∀ ts : List Tree, targetsAmong ts ⊆ mentionsAmong ts
  | [] => List.Subset.refl _
  | t :: ts => by
      rw [targetsAmong, mentionsAmong]
      exact List.append_subset.mpr
        ⟨List.Subset.trans (targets_subset_mentions t) (List.subset_append_left _ _),
          List.Subset.trans (targetsAmong_subset_mentionsAmong ts) (List.subset_append_right _ _)⟩

end

theorem ownBinds_subset (f : Form) (ps : List Tree) :
    ownBinds f ps ⊆ f.mention?.toList ++ mentionsAmong ps := by
  have hform : f.bind?.toList ⊆ f.mention?.toList := by
    cases f <;> first | exact List.nil_subset _ | exact List.Subset.refl _
  have hparts : targetParts f ps ⊆ ps := by
    cases f
    case declarator | function | catchClause => exact List.take_subset _ _
    case classOf => exact List.Subset.trans (List.take_subset _ _) (List.drop_subset _ _)
    case parameters => exact List.Subset.refl _
    all_goals exact List.nil_subset _
  have hmentions : mentionsAmong (targetParts f ps) ⊆ mentionsAmong ps := by
    intro n hn
    rw [mentionsAmong_eq] at hn ⊢
    obtain ⟨t, ht, hn⟩ := List.mem_flatMap.mp hn
    exact List.mem_flatMap.mpr ⟨t, hparts ht, hn⟩
  exact List.append_subset.mpr ⟨List.Subset.trans hform (List.subset_append_left _ _),
    List.Subset.trans (targetsAmong_subset_mentionsAmong _)
      (List.Subset.trans hmentions (List.subset_append_right _ _))⟩

mutual

theorem binds_subset_mentions : ∀ t : Tree, binds t ⊆ mentions t
  | node f ps => by
      rw [binds, mentions]
      cases f.literal? with
      | some literal => exact List.nil_subset _
      | none =>
          exact List.append_subset.mpr ⟨ownBinds_subset f ps,
            List.Subset.trans (bindsAmong_subset_mentionsAmong ps) (List.subset_append_right _ _)⟩

theorem bindsAmong_subset_mentionsAmong : ∀ ts : List Tree, bindsAmong ts ⊆ mentionsAmong ts
  | [] => List.Subset.refl _
  | t :: ts => by
      rw [bindsAmong, mentionsAmong]
      exact List.append_subset.mpr
        ⟨List.Subset.trans (binds_subset_mentions t) (List.subset_append_left _ _),
          List.Subset.trans (bindsAmong_subset_mentionsAmong ts) (List.subset_append_right _ _)⟩

end

end Tree

end DefineBundle.Script
