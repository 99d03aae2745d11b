import DefineBundle.Proofs.Script.DefineCalls
import DefineBundle.Proofs.Script.Renaming

/-!
# Which calls declare modules

A place in a tree is the way down to it: which part is entered at each node. The parts of a node are
in source order, so places are in source order when their ways are in lexicographic order. The calls
of `define` that count are those that no other is above, each of them once and in source order; all
of them have to declare a module, and otherwise the first that does not is to blame. What else is
found inside a call that counts could as well be something else.
-/
namespace DefineBundle.Script

open DefineBundle.Script.Tree

namespace Tree

/-- The tree at the end of a way down, which says which part to enter at each node. -/
def subtree? : Tree → List Nat → Option Tree
  | t, [] => some t
  | node _ ps, i :: way => ps[i]?.bind fun t => subtree? t way

/-- The tree with another one at the end of a way down. -/
def graft : Tree → List Nat → Tree → Tree
  | _, [], s => s
  | node f ps, i :: way, s => node f (ps.modify i fun t => graft t way s)

/-- The arguments of the call of `define` at a place. -/
def defineAt? (t : Tree) (way : List Nat) : Option (List Tree) :=
  (t.subtree? way).bind (callArguments? "define")

/-- At the place is a call of `define` with these arguments, and there is none above it. -/
def IsOutermost (t : Tree) (way : List Nat) (arguments : List Tree) : Prop :=
  t.defineAt? way = some arguments ∧
    ∀ above, above <+: way → above ≠ way → t.defineAt? above = none

variable {t s : Tree} {f : Form} {ps arguments : List Tree} {way : List Nat} {i : Nat}

theorem defineAt?_nil (t : Tree) : t.defineAt? [] = callArguments? "define" t := by
  cases t
  rfl

theorem defineAt?_cons (f : Form) (ps : List Tree) (i : Nat) (way : List Nat) :
    (node f ps).defineAt? (i :: way) = ps[i]?.bind fun t => t.defineAt? way := by
  rw [defineAt?, subtree?, Option.bind_assoc]
  rfl

/-- Where the root is a call of `define`, it is the outermost one. -/
theorem isOutermost_of_call {found : List Tree} (h : callArguments? "define" t = some arguments) :
    t.IsOutermost way found ↔ way = [] ∧ found = arguments := by
  rw [← defineAt?_nil] at h
  constructor
  · rintro ⟨hat, habove⟩
    cases way with
    | nil => exact ⟨rfl, Option.some.inj (hat.symm.trans h)⟩
    | cons i way =>
        have hnone := habove [] (List.nil_prefix) (List.cons_ne_nil i way).symm
        rw [h] at hnone
        cases hnone
  · rintro ⟨rfl, rfl⟩
    exact ⟨h, fun above hprefix hne => absurd (List.prefix_nil.mp hprefix) hne⟩

/-- Where it is not, the outermost calls are those of its parts. -/
theorem isOutermost_of_none (h : callArguments? "define" (node f ps) = none) :
    (node f ps).IsOutermost way arguments ↔
      ∃ i below p, way = i :: below ∧ ps[i]? = some p ∧ p.IsOutermost below arguments := by
  rw [← defineAt?_nil] at h
  constructor
  · rintro ⟨hat, habove⟩
    cases way with
    | nil =>
        rw [h] at hat
        cases hat
    | cons i below =>
        rw [defineAt?_cons] at hat
        obtain ⟨p, hp, hat⟩ := Option.bind_eq_some_iff.mp hat
        refine ⟨i, below, p, rfl, hp, hat, fun above hprefix hne => ?_⟩
        have hnone := habove (i :: above) (List.cons_prefix_cons.mpr ⟨rfl, hprefix⟩)
          (fun he => hne (List.cons.inj he).2)
        rwa [defineAt?_cons, hp] at hnone
  · rintro ⟨i, below, p, rfl, hp, hat, habove⟩
    refine ⟨by rw [defineAt?_cons, hp]; exact hat, fun above hprefix hne => ?_⟩
    cases above with
    | nil => exact h
    | cons j above =>
        obtain ⟨rfl, hbelow⟩ := List.cons_prefix_cons.mp hprefix
        rw [defineAt?_cons, hp]
        exact habove above hbelow fun he => hne (by rw [he])

mutual

/-- The places and the arguments of the outermost calls of `define`, in source order. -/
def outermost : Tree → List (List Nat × List Tree)
  | node f ps =>
      match callArguments? "define" (node f ps) with
      | some arguments => [([], arguments)]
      | none => outermostAmong 0 ps
termination_by structural t => t

/-- The same for the parts of a node from the one with a given number on. -/
def outermostAmong (n : Nat) : List Tree → List (List Nat × List Tree)
  | [] => []
  | t :: ts => (outermost t).map (fun c => (n :: c.1, c.2)) ++ outermostAmong (n + 1) ts
termination_by structural ts => ts

end

mutual

theorem map_snd_outermost (t : Tree) : t.outermost.map Prod.snd = t.defineCalls := by
  cases t with
  | node f ps =>
      rw [outermost, defineCalls]
      cases callArguments? "define" (node f ps) with
      | some arguments => rfl
      | none => exact map_snd_outermostAmong 0 ps
termination_by structural t

theorem map_snd_outermostAmong (n : Nat) (ts : List Tree) :
    (outermostAmong n ts).map Prod.snd = defineCallsAmong ts := by
  cases ts with
  | nil => rfl
  | cons t ts =>
      rw [outermostAmong, defineCallsAmong, List.map_append, List.map_map,
        map_snd_outermostAmong (n + 1) ts, ← map_snd_outermost t]
      rfl
termination_by structural ts

end

mutual

theorem mem_outermost (t : Tree) (way : List Nat) (arguments : List Tree) :
    (way, arguments) ∈ t.outermost ↔ t.IsOutermost way arguments := by
  cases t with
  | node f ps =>
      rw [outermost]
      cases hcall : callArguments? "define" (node f ps) with
      | some found =>
          rw [isOutermost_of_call hcall]
          simp
      | none =>
          rw [isOutermost_of_none hcall]
          simpa using mem_outermostAmong 0 ps way arguments
termination_by structural t

theorem mem_outermostAmong (n : Nat) (ts : List Tree) (way : List Nat) (arguments : List Tree) :
    (way, arguments) ∈ outermostAmong n ts ↔
      ∃ i below p, way = (n + i) :: below ∧ ts[i]? = some p ∧ p.IsOutermost below arguments := by
  cases ts with
  | nil => simp [outermostAmong]
  | cons t ts =>
      rw [outermostAmong, List.mem_append, mem_outermostAmong (n + 1) ts, List.mem_map]
      constructor
      · rintro (⟨⟨below, found⟩, hmem, he⟩ | ⟨i, below, p, rfl, hp, hout⟩)
        · obtain ⟨rfl, rfl⟩ := Prod.mk.inj he
          exact ⟨0, below, t, rfl, rfl, (mem_outermost t below found).mp hmem⟩
        · exact ⟨i + 1, below, p, by rw [Nat.add_right_comm]; rfl, hp, hout⟩
      · rintro ⟨i, below, p, rfl, hp, hout⟩
        cases i with
        | zero =>
            obtain rfl : t = p := Option.some.inj hp
            exact .inl ⟨(below, arguments), (mem_outermost t below arguments).mpr hout, rfl⟩
        | succ i => exact .inr ⟨i, below, p, by rw [Nat.add_right_comm]; rfl, hp, hout⟩
termination_by structural ts

end

mutual

theorem pairwise_outermost (t : Tree) : t.outermost.Pairwise fun c d => c.1 < d.1 := by
  cases t with
  | node f ps =>
      rw [outermost]
      split
      · exact List.pairwise_singleton _ _
      · exact pairwise_outermostAmong 0 ps
termination_by structural t

theorem pairwise_outermostAmong (n : Nat) (ts : List Tree) :
    (outermostAmong n ts).Pairwise fun c d => c.1 < d.1 := by
  cases ts with
  | nil => exact .nil
  | cons t ts =>
      rw [outermostAmong]
      refine List.pairwise_append.mpr
        ⟨List.pairwise_map.mpr ?_, pairwise_outermostAmong (n + 1) ts, fun c hc d hd => ?_⟩
      · exact (pairwise_outermost t).imp fun h => List.cons_lt_cons_iff.mpr (.inr ⟨rfl, h⟩)
      · obtain ⟨c, -, rfl⟩ := List.mem_map.mp hc
        obtain ⟨way, arguments⟩ := d
        obtain ⟨i, below, p, rfl, -⟩ := (mem_outermostAmong (n + 1) ts way arguments).mp hd
        exact List.cons_lt_cons_iff.mpr (.inl (by omega))
termination_by structural ts

end

end Tree

/-- The declaration is the one that the arguments write out: the id as a string literal, the
dependencies as a list of string literals, and a function with so many parameters. -/
inductive Declaration.IsOf (d : Declaration) : List Tree → Prop
  | intro {id factory : Tree} {es rest : List Tree} : id.stringValue? = some d.id →
      List.Forall₂ (fun e dep => stringValue? e = some dep) es d.deps →
      factory.paramCount? = some d.params → IsOf d (id :: node .array es :: factory :: rest)

/-- The fault is what is wrong with the arguments, looked at from the first one on. -/
inductive MalformedDefine.Describes : MalformedDefine → List Tree → Prop
  | noArguments : Describes .noArguments []
  | idNotLiteral {first : Tree} {rest : List Tree} : first.stringValue? = none →
      Describes .idNotLiteral (first :: rest)
  | depsMissing {first : Tree} {id : String} : first.stringValue? = some id →
      Describes (.depsNotArray id) [first]
  | depsNotArray {first second : Tree} {id : String} {rest : List Tree} :
      first.stringValue? = some id → second.form ≠ .array →
      Describes (.depsNotArray id) (first :: second :: rest)
  | depNotLiteral {first e : Tree} {id : String} {es rest : List Tree} :
      first.stringValue? = some id → e ∈ es → e.stringValue? = none →
      Describes (.depNotLiteral id) (first :: node .array es :: rest)
  | noFactory {first : Tree} {id : String} {es rest : List Tree} :
      first.stringValue? = some id → (∀ e ∈ es, (stringValue? e).isSome) →
      rest.head?.bind paramCount? = none →
      Describes (.noFactory id) (first :: node .array es :: rest)

theorem Declaration.IsOf.ofArguments? {d : Declaration} {arguments : List Tree}
    (h : d.IsOf arguments) : ofArguments? arguments = .ok d := by
  obtain ⟨hid, hes, hfactory⟩ := h
  simp only [Declaration.ofArguments?, hid, Declaration.deps?, mapM_eq_some_iff.mpr hes,
    List.drop_one, List.tail_cons, List.head?_cons, Option.bind_some, hfactory]
  rfl

theorem MalformedDefine.Describes.ofArguments? {fault : MalformedDefine} {arguments : List Tree}
    (h : fault.Describes arguments) : Declaration.ofArguments? arguments = .error fault := by
  cases h with
  | noArguments => rfl
  | idNotLiteral hid => simp only [Declaration.ofArguments?, hid]
  | depsMissing hid =>
      simp only [Declaration.ofArguments?, hid]
      rfl
  | @depsNotArray first second id rest hid hform =>
      have hdeps : Declaration.deps? id second = .error (.depsNotArray id) := by
        unfold Declaration.deps?
        split
        · exact absurd rfl hform
        · rfl
      simp only [Declaration.ofArguments?, hid, hdeps]
      rfl
  | depNotLiteral hid he hnone =>
      simp only [Declaration.ofArguments?, hid, Declaration.deps?,
        mapM_eq_none_iff.mpr ⟨_, he, hnone⟩]
      rfl
  | noFactory hid hes hnone =>
      obtain ⟨deps, hdeps⟩ := exists_mapM_eq_some hes
      simp only [Declaration.ofArguments?, hid, Declaration.deps?, hdeps, List.drop_one,
        List.tail_cons, hnone]
      rfl

theorem exists_isOf_or_describes (arguments : List Tree) :
    (∃ d : Declaration, d.IsOf arguments) ∨
      ∃ fault : MalformedDefine, fault.Describes arguments := by
  rcases arguments with - | ⟨first, rest⟩
  · exact .inr ⟨_, .noArguments⟩
  cases hid : first.stringValue? with
  | none => exact .inr ⟨_, .idNotLiteral hid⟩
  | some id =>
      rcases rest with - | ⟨⟨f, es⟩, rest⟩
      · exact .inr ⟨_, .depsMissing hid⟩
      by_cases hf : f = .array
      · subst hf
        cases hdeps : es.mapM stringValue? with
        | none =>
            obtain ⟨e, he, hnone⟩ := mapM_eq_none_iff.mp hdeps
            exact .inr ⟨_, .depNotLiteral hid he hnone⟩
        | some deps =>
            have hes := mapM_eq_some_iff.mp hdeps
            cases hfactory : rest.head?.bind paramCount? with
            | none =>
                exact .inr ⟨_, .noFactory hid (isSome_of_forall₂ hes) hfactory⟩
            | some params =>
                obtain ⟨factory, hhead, hparams⟩ := Option.bind_eq_some_iff.mp hfactory
                obtain ⟨more, rfl⟩ := List.head?_eq_some_iff.mp hhead
                exact .inl ⟨⟨id, deps, params⟩, .intro hid hes hparams⟩
      · exact .inr ⟨_, .depsNotArray hid hf⟩

theorem Declaration.ofArguments?_eq_ok_iff {d : Declaration} {arguments : List Tree} :
    ofArguments? arguments = .ok d ↔ d.IsOf arguments := by
  refine ⟨fun h => ?_, IsOf.ofArguments?⟩
  obtain ⟨other, hother⟩ | ⟨fault, hfault⟩ := exists_isOf_or_describes arguments
  · obtain rfl : d = other := Except.ok.inj (h.symm.trans hother.ofArguments?)
    exact hother
  · rw [hfault.ofArguments?] at h
    cases h

theorem Declaration.ofArguments?_eq_error_iff {fault : MalformedDefine} {arguments : List Tree} :
    ofArguments? arguments = .error fault ↔ fault.Describes arguments := by
  refine ⟨fun h => ?_, MalformedDefine.Describes.ofArguments?⟩
  obtain ⟨d, hd⟩ | ⟨other, hother⟩ := exists_isOf_or_describes arguments
  · rw [hd.ofArguments?] at h
    cases h
  · obtain rfl : fault = other := Except.error.inj (h.symm.trans hother.ofArguments?)
    exact hother

/-- The arguments declare a module if and only if they are well-formed. -/
theorem exists_isOf_iff {arguments : List Tree} :
    (∃ d : Declaration, d.IsOf arguments) ↔ IsDefinition arguments := by
  constructor
  · rintro ⟨d, hid, hes, hfactory⟩
    exact .intro (Option.isSome_of_eq_some hid) (isSome_of_forall₂ hes)
      (Option.isSome_of_eq_some hfactory)
  · intro h
    obtain ⟨d, hd⟩ := h.exists_ofArguments?
    exact ⟨d, Declaration.ofArguments?_eq_ok_iff.mp hd⟩

theorem declarations_eq_mapM (t : Tree) :
    declarations t = t.outermost.mapM fun c => Declaration.ofArguments? c.2 := by
  rw [declarations, ← map_snd_outermost, List.mapM_map]
  rfl

namespace Tree

variable {t s : Tree} {f : Form} {ps arguments : List Tree} {way : List Nat} {i : Nat}

/-- Nothing that a declaration is read from, and no list of parameters. -/
structure IsMute (s : Tree) : Prop where
  stringValue? : s.stringValue? = none
  paramCount? : s.paramCount? = none
  ne_array : s.form ≠ .array
  ne_parameters : s.form ≠ .parameters

theorem isMute_of_call (h : callArguments? "define" t = some arguments) : t.IsMute := by
  unfold callArguments? at h
  split at h
  · exact ⟨rfl, rfl, by simp [Tree.form], by simp [Tree.form]⟩
  · cases h

theorem IsMute.deps? (h : s.IsMute) (id : String) :
    Declaration.deps? id s = .error (.depsNotArray id) := by
  unfold Declaration.deps?
  split
  · exact absurd rfl h.ne_array
  · rfl

theorem form_graft (h : way ≠ []) (t s : Tree) : (t.graft way s).form = t.form := by
  cases t with
  | node f ps =>
      cases way with
      | nil => exact absurd rfl h
      | cons i way => rfl

/-- A declaration reads the same from both trees, whichever argument they are. -/
structure Alike (t u : Tree) : Prop where
  stringValue? : t.stringValue? = u.stringValue?
  deps? (id : String) : Declaration.deps? id t = Declaration.deps? id u
  paramCount? : t.paramCount? = u.paramCount?

theorem Alike.refl (t : Tree) : Alike t t :=
  ⟨rfl, fun _ => rfl, rfl⟩

theorem IsMute.alike (h : s.IsMute) (ht : t.IsMute) : Alike s t :=
  ⟨h.stringValue?.trans ht.stringValue?.symm, fun id => (h.deps? id).trans (ht.deps? id).symm,
    h.paramCount?.trans ht.paramCount?.symm⟩

theorem stringValue?_of_form_eq {t u : Tree} (h : t.form = u.form) :
    t.stringValue? = u.stringValue? := by
  cases t with
  | node f ps =>
      cases u with
      | node g qs =>
          obtain rfl : f = g := h
          cases f <;> rfl

/-- How many parameters a list of parameters has. -/
def parameterCount? : Tree → Option Nat
  | node .parameters ps => some ps.length
  | _ => none

theorem paramCount?_function (isAsync isGenerator isEffectFree : Bool) (name params body : Tree) :
    (node (.function isAsync isGenerator isEffectFree) [name, params, body]).paramCount? =
      params.parameterCount? := by
  cases params with
  | node f ps => cases f <;> rfl

theorem paramCount?_arrow (isAsync isConcise isEffectFree : Bool) (params body : Tree) :
    (node (.arrow isAsync isConcise isEffectFree) [params, body]).paramCount? =
      params.parameterCount? := by
  cases params with
  | node f ps => cases f <;> rfl

/-- The call at a place may be replaced by anything mute: its text is none in either case. -/
theorem stringValue?_graft (hs : s.IsMute) (h : t.defineAt? way = some arguments) :
    (t.graft way s).stringValue? = t.stringValue? := by
  cases way with
  | nil =>
      rw [defineAt?_nil] at h
      cases t
      exact hs.stringValue?.trans (isMute_of_call h).stringValue?.symm
  | cons i way => exact stringValue?_of_form_eq (form_graft (List.cons_ne_nil i way) t s)

theorem parameterCount?_graft (hs : s.IsMute) (h : t.defineAt? way = some arguments) :
    (t.graft way s).parameterCount? = t.parameterCount? := by
  have hnone : ∀ u : Tree, u.form ≠ .parameters → u.parameterCount? = none := fun u hu => by
    unfold parameterCount?
    split
    · exact absurd rfl hu
    · rfl
  cases way with
  | nil =>
      rw [defineAt?_nil] at h
      cases t
      exact (hnone _ hs.ne_parameters).trans (hnone _ (isMute_of_call h).ne_parameters).symm
  | cons i way =>
      cases t with
      | node f ps =>
          by_cases hf : f = .parameters
          · subst hf
            exact congrArg some (List.length_modify _ ps i)
          · exact (hnone (node f _) hf).trans (hnone (node f ps) hf).symm

theorem deps?_modify (id : String) (f : Form) {m : Tree → Tree}
    (h : ∀ p, ps[i]? = some p → (m p).stringValue? = p.stringValue?) :
    Declaration.deps? id (node f (ps.modify i m)) = Declaration.deps? id (node f ps) := by
  by_cases hf : f = .array
  · subst hf
    simp only [Declaration.deps?, mapM_modify h]
  · have hdeps : ∀ qs, Declaration.deps? id (node f qs) = .error (.depsNotArray id) := by
      intro qs
      unfold Declaration.deps?
      split
      · rename_i he
        cases he
        exact absurd rfl hf
      · rfl
    rw [hdeps, hdeps]

theorem paramCount?_modify (f : Form) {m : Tree → Tree}
    (h : ∀ p, ps[i]? = some p → (m p).parameterCount? = p.parameterCount?) :
    (node f (ps.modify i m)).paramCount? = (node f ps).paramCount? := by
  have hlength := List.length_modify m ps i
  cases f with
  | function isAsync isGenerator isEffectFree =>
      have hnone : ∀ {qs : List Tree}, qs.length ≠ 3 →
          (node (.function isAsync isGenerator isEffectFree) qs).paramCount? = none := by
        intro qs hqs
        unfold paramCount?
        split
        · rename_i he
          cases he
          exact absurd rfl hqs
        · rename_i he
          cases he
        · rfl
      by_cases hps : ps.length = 3
      · obtain ⟨name, params, body, rfl⟩ := List.length_eq_three.mp hps
        rcases i with - | - | - | i
        · exact (paramCount?_function ..).trans (paramCount?_function ..).symm
        · exact ((paramCount?_function ..).trans (h params rfl)).trans (paramCount?_function ..).symm
        · exact (paramCount?_function ..).trans (paramCount?_function ..).symm
        · rw [List.modify_eq_self (by simp)]
      · rw [hnone (hlength ▸ hps), hnone hps]
  | arrow isAsync isConcise isEffectFree =>
      have hnone : ∀ {qs : List Tree}, qs.length ≠ 2 →
          (node (.arrow isAsync isConcise isEffectFree) qs).paramCount? = none := by
        intro qs hqs
        unfold paramCount?
        split
        · rename_i he
          cases he
        · rename_i he
          cases he
          exact absurd rfl hqs
        · rfl
      by_cases hps : ps.length = 2
      · obtain ⟨params, body, rfl⟩ := List.length_eq_two.mp hps
        rcases i with - | - | i
        · exact ((paramCount?_arrow ..).trans (h params rfl)).trans (paramCount?_arrow ..).symm
        · exact (paramCount?_arrow ..).trans (paramCount?_arrow ..).symm
        · rw [List.modify_eq_self (by simp)]
      · rw [hnone (hlength ▸ hps), hnone hps]
  | _ => rfl

/-- A declaration reads the same from an argument when a call inside it is replaced. -/
theorem alike_graft (hs : s.IsMute) (h : t.defineAt? way = some arguments) :
    Alike (t.graft way s) t := by
  cases way with
  | nil =>
      rw [defineAt?_nil] at h
      cases t
      exact hs.alike (isMute_of_call h)
  | cons i way =>
      cases t with
      | node f ps =>
          rw [defineAt?_cons] at h
          obtain ⟨p, hp, hat⟩ := Option.bind_eq_some_iff.mp h
          have heq : ∀ q, ps[i]? = some q → q = p := fun q hq => Option.some.inj (hq.symm.trans hp)
          refine ⟨stringValue?_of_form_eq rfl, fun id => deps?_modify id f fun q hq => ?_,
            paramCount?_modify f fun q hq => ?_⟩
          · rw [heq q hq]
            exact stringValue?_graft hs hat
          · rw [heq q hq]
            exact parameterCount?_graft hs hat

theorem ofArguments?_congr {us : List Tree} (h : List.Forall₂ Alike arguments us) :
    Declaration.ofArguments? arguments = Declaration.ofArguments? us := by
  obtain - | ⟨hfirst, hrest⟩ := h
  · rfl
  obtain - | ⟨hsecond, hrest⟩ := hrest
  · simp only [Declaration.ofArguments?, hfirst.stringValue?]
  obtain - | ⟨hthird, -⟩ := hrest
  · simp only [Declaration.ofArguments?, hfirst.stringValue?, hsecond.deps?, List.drop_one,
      List.tail_cons]
  · simp only [Declaration.ofArguments?, hfirst.stringValue?, hsecond.deps?, List.drop_one,
      List.tail_cons, List.head?_cons, Option.bind_some, hthird.paramCount?]

theorem forall₂_modify {m : Tree → Tree} (h : ∀ p, ps[i]? = some p → Alike (m p) p) :
    List.Forall₂ Alike (ps.modify i m) ps := by
  induction ps generalizing i with
  | nil =>
      rw [List.modify_nil]
      exact .nil
  | cons p ps ih =>
      cases i with
      | zero => exact .cons (h p rfl) (List.forall₂_same.mpr fun q _ => Alike.refl q)
      | succ i => exact .cons (Alike.refl p) (ih fun q hq => h q hq)

/-- What the outermost calls declare, or why they declare nothing. -/
def outcomes (t : Tree) : List (Except MalformedDefine Declaration) :=
  t.defineCalls.map Declaration.ofArguments?

theorem outcomes_of_none (h : callArguments? "define" (node f ps) = none) :
    outcomes (node f ps) = ps.flatMap outcomes := by
  rw [outcomes, defineCalls, h, defineCallsAmong_eq, List.map_flatMap]
  rfl

theorem flatMap_modify {α β : Type} {g : α → List β} {m : α → α} {xs : List α}
    (h : ∀ x, xs[i]? = some x → g (m x) = g x) : (xs.modify i m).flatMap g = xs.flatMap g := by
  induction xs generalizing i with
  | nil => rw [List.modify_nil]
  | cons x xs ih =>
      cases i with
      | zero => rw [List.modify_zero_cons, List.flatMap_cons, List.flatMap_cons, h x rfl]
      | succ i =>
          rw [List.modify_succ_cons, List.flatMap_cons, List.flatMap_cons, ih fun y hy => h y hy]

theorem head?_modify_graft (hway : way ≠ []) (i : Nat) (s : Tree) :
    (ps.modify i fun t => t.graft way s).head?.map form = ps.head?.map form := by
  cases ps with
  | nil => rw [List.modify_nil]
  | cons p ps =>
      cases i with
      | zero => exact congrArg some (form_graft hway p s)
      | succ i => rfl

theorem outcomes_of_call (h : callArguments? "define" t = some arguments) :
    outcomes t = [Declaration.ofArguments? arguments] := by
  cases t
  rw [outcomes, defineCalls, h]
  rfl

/-- Below an outermost call of `define`, a call can be replaced by anything mute. -/
theorem outcomes_graft_of_call (hs : s.IsMute) (hcall : callArguments? "define" t = some arguments)
    {inner : List Tree} (hne : way ≠ []) (h : t.defineAt? way = some inner) :
    outcomes (t.graft way s) = outcomes t := by
  cases way with
  | nil => exact absurd rfl hne
  | cons i way =>
      cases t with
      | node f ps =>
          rw [defineAt?_cons] at h
          obtain ⟨p, hp, hat⟩ := Option.bind_eq_some_iff.mp h
          rw [outcomes_of_call hcall]
          obtain ⟨isOptional, isPure, qs, rfl, rfl⟩ := callArguments?_eq_some_iff.mp hcall
          cases i with
          | zero =>
              obtain rfl := Option.some.inj hp
              cases way with
              | nil =>
                  -- the callee is a name and no call
                  cases hat
              | cons j way =>
                  exact outcomes_of_call
                    (callArguments?_eq_some_iff.mpr ⟨isOptional, isPure, _, rfl, rfl⟩)
          | succ i =>
              have hnew := outcomes_of_call (callArguments?_eq_some_iff.mpr ⟨isOptional, isPure, qs,
                rfl, (rfl : _ = _ :: arguments.modify i fun t => t.graft way s)⟩)
              rw [ofArguments?_congr (forall₂_modify fun q hq => ?_)] at hnew
              · exact hnew
              · obtain rfl : p = q := Option.some.inj (hp.symm.trans hq)
                exact alike_graft hs hat

/-- A call that is not an outermost one can be replaced by anything mute. -/
theorem outcomes_graft (hs : s.IsMute) {inner : List Tree} (h : t.defineAt? way = some inner)
    (hinner : ¬ t.IsOutermost way inner) : outcomes (t.graft way s) = outcomes t := by
  induction way generalizing t with
  | nil =>
      refine absurd ⟨h, fun above hprefix hne => ?_⟩ hinner
      exact absurd (List.prefix_nil.mp hprefix) hne
  | cons i way ih =>
      cases t with
      | node f ps =>
          cases hcall : callArguments? "define" (node f ps) with
          | some arguments => exact outcomes_graft_of_call hs hcall (List.cons_ne_nil i way) h
          | none =>
              rw [defineAt?_cons] at h
              obtain ⟨p, hp, hat⟩ := Option.bind_eq_some_iff.mp h
              have hbelow : ¬ p.IsOutermost way inner := fun hout =>
                hinner ((isOutermost_of_none hcall).mpr ⟨i, way, p, rfl, hp, hout⟩)
              -- a call at a part itself would be an outermost one
              have hway : way ≠ [] := by
                rintro rfl
                rw [defineAt?_nil] at hat
                exact hbelow ((isOutermost_of_call hat).mpr ⟨rfl, rfl⟩)
              have hnone := callArguments?_eq_none hcall (head?_modify_graft hway i s)
              rw [graft, outcomes_of_none hnone, outcomes_of_none hcall]
              refine flatMap_modify fun q hq => ?_
              obtain rfl : p = q := Option.some.inj (hp.symm.trans hq)
              exact ih hat hbelow

end Tree

theorem declarations_eq_of_outcomes_eq {t u : Tree} (h : t.outcomes = u.outcomes) :
    declarations t = declarations u := by
  have hall : ∀ v : Tree, declarations v = v.outcomes.mapM id := fun v => by
    rw [outcomes, List.mapM_map]
    rfl
  rw [hall, hall, h]

/-- The outermost calls of `define` in a script, in source order and each once, are what it declares
modules with. There are declarations if and only if each of these calls has a string literal, a list
of string literals and a function as its arguments, and then there is one for each of them in the
same order; otherwise the fault is that of the first call that has not. Any other call of `define`
might as well be something else. -/
theorem declarations_outermost (t : Tree) :
    ∃ calls : List (List Nat × List Tree),
      calls.Pairwise (fun c d => c.1 < d.1) ∧
      (∀ way arguments, (way, arguments) ∈ calls ↔ t.IsOutermost way arguments) ∧
      ((∃ ds, declarations t = .ok ds) ↔ ∀ c ∈ calls, IsDefinition c.2) ∧
      (∀ ds, declarations t = .ok ds ↔
        List.Forall₂ (fun c (d : Declaration) => d.IsOf c.2) calls ds) ∧
      (∀ fault, declarations t = .error fault ↔ ∃ before c after, calls = before ++ c :: after ∧
        (∀ b ∈ before, IsDefinition b.2) ∧ fault.Describes c.2) ∧
      ∀ way inner, t.defineAt? way = some inner → ¬ t.IsOutermost way inner →
        ∀ s : Tree, s.IsMute → declarations (t.graft way s) = declarations t := by
  have hok : ∀ ds, declarations t = .ok ds ↔
      List.Forall₂ (fun c (d : Declaration) => d.IsOf c.2) t.outermost ds := fun ds => by
    rw [declarations_eq_mapM, mapM_eq_ok_iff]
    simp only [Declaration.ofArguments?_eq_ok_iff]
  have hdefinition : ∀ c : List Nat × List Tree,
      (∃ d, Declaration.ofArguments? c.2 = .ok d) ↔ IsDefinition c.2 := fun c => by
    simp only [Declaration.ofArguments?_eq_ok_iff, exists_isOf_iff]
  have herror : ∀ fault, declarations t = .error fault ↔ ∃ before c after,
      t.outermost = before ++ c :: after ∧ (∀ b ∈ before, IsDefinition b.2) ∧
        fault.Describes c.2 := fun fault => by
    rw [declarations_eq_mapM, mapM_eq_error_iff]
    simp only [hdefinition, Declaration.ofArguments?_eq_error_iff]
  refine ⟨t.outermost, pairwise_outermost t, mem_outermost t, ⟨?_, fun hall => ?_⟩, hok, herror,
    fun way inner h hinner s hs => declarations_eq_of_outcomes_eq (outcomes_graft hs h hinner)⟩
  · rintro ⟨ds, hds⟩
    rw [declarations_eq_mapM, mapM_eq_ok_iff] at hds
    exact forall_of_forall₂ (hds.imp fun c d hd => (hdefinition c).mp ⟨d, hd⟩)
  · cases h : declarations t with
    | ok ds => exact ⟨ds, rfl⟩
    | error fault =>
        obtain ⟨before, c, after, hsplit, -, hfault⟩ := (herror fault).mp h
        obtain ⟨d, hd⟩ := (hdefinition c).mpr (hall c (by simp [hsplit]))
        rw [hfault.ofArguments?] at hd
        cases hd

end DefineBundle.Script
