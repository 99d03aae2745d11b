import DefineBundle.Files.Disk
import DefineBundle.Path.Glob
import DefineBundle.Proofs.Path.NormalForm

/-!
# Locations and their paths

An absolute path in normal form spells a location, name by name. Such paths are told apart by what
they spell.
-/
namespace DefineBundle

namespace Disk

open DefineBundle.Path (IsNormal IsProper Route isAbsolute route step)
open DefineBundle.Text

/-- A name that leads down. -/
structure IsName (name : String) : Prop where
  proper : IsProper name.toList
  ne_up : name ≠ ".."

theorem IsName.toList_ne_up {name : String} (h : IsName name) : name.toList ≠ ['.', '.'] :=
  fun he => h.ne_up (String.toList_inj.mp he)

theorem isName_iff {name : String} : IsName name ↔
    (name.toList ≠ [] ∧ name.toList ≠ ['.'] ∧ '/' ∉ name.toList) ∧ name ≠ ".." :=
  ⟨fun h => ⟨⟨h.proper.ne_nil, h.proper.ne_dot, h.proper.no_slash⟩, h.ne_up⟩,
    fun h => ⟨⟨h.1.1, h.1.2.1, h.1.2.2⟩, h.2⟩⟩

instance (name : String) : Decidable (IsName name) :=
  decidable_of_iff _ isName_iff.symm

/-- The path that spells a location. -/
def pathOf (l : Location) : String :=
  Route.text ⟨true, l.map String.toList⟩

theorem isAbsolute_pathOf (l : Location) : isAbsolute (pathOf l) = true := by
  simp [pathOf, Route.text, isAbsolute]

theorem route_pathOf {l : Location} (h : ∀ name ∈ l, IsName name) :
    route (pathOf l) = ⟨true, [] :: if l = [] then [[]] else l.map String.toList⟩ := by
  have hroute : route (pathOf l) =
      ⟨true, [] :: splitOn '/' (joinWith ['/'] (l.map String.toList))⟩ := by
    simp [pathOf, Route.text, route, isAbsolute, splitOn]
  rw [hroute]
  by_cases hl : l = []
  · subst hl
    rfl
  · rw [if_neg hl, splitOn_joinWith (by simpa using hl)]
    intro s hs
    obtain ⟨name, hname, rfl⟩ := List.mem_map.mp hs
    exact (h name hname).proper.no_slash

theorem names_pathOf {l : Location} (h : ∀ name ∈ l, IsName name) :
    names (pathOf l) = "" :: if l = [] then [""] else l := by
  rw [names, route_pathOf h]
  split
  · rfl
  · simp [Function.comp_def]

theorem pathOf_injective {l l' : Location} (h : ∀ name ∈ l, IsName name)
    (h' : ∀ name ∈ l', IsName name) (he : pathOf l = pathOf l') : l = l' := by
  have hnames := (names_pathOf h).symm.trans ((congrArg names he).trans (names_pathOf h'))
  have hempty : ∀ {k : Location}, (∀ name ∈ k, IsName name) → k ≠ [""] := by
    rintro k hk rfl
    exact (hk "" (by simp)).proper.ne_nil rfl
  have htail := (List.cons.inj hnames).2
  split at htail <;> split at htail
  · simp [*]
  · exact absurd htail.symm (hempty h')
  · exact absurd htail (hempty h)
  · exact htail

theorem ne_up_of_mem_foldl_step {segments walked : List (List Char)}
    (hw : ∀ s ∈ walked, s ≠ ['.', '.']) :
    ∀ s ∈ segments.foldl (step true) walked, s ≠ ['.', '.'] := by
  induction segments generalizing walked with
  | nil => exact hw
  | cons segment segments ih =>
      refine ih fun s hs => ?_
      unfold step at hs
      split at hs
      · exact hw s hs
      · split at hs
        · cases walked with
          | nil => cases hs
          | cons last before =>
              have hlast : ¬ ((last == ['.', '.']) = true) := by simpa using hw last (by simp)
              dsimp only at hs
              rw [if_neg hlast] at hs
              exact hw s (List.mem_cons_of_mem _ hs)
        · rename_i hup
          rcases List.mem_cons.mp hs with rfl | hs
          · simpa using hup
          · exact hw s hs

def Spells (p : String) : Prop :=
  ∃ l, (∀ name ∈ l, IsName name) ∧ pathOf l = p

/-- The paths that spell locations are the absolute ones in normal form. -/
theorem spells_of_isNormal {p : String} (hnormal : IsNormal p) (habsolute : isAbsolute p = true) :
    Spells p := by
  obtain ⟨q, rfl⟩ := hnormal
  have hproper : ∀ s ∈ (route q).reduce.segments, IsProper s :=
    fun _ hs => Path.isProper_of_mem_reduce hs
  have hq : (route q).isAbsolute = true := Path.isAbsolute_of_normalize habsolute
  have hup : ∀ s ∈ (route q).reduce.segments, s ≠ ['.', '.'] := by
    intro s hs
    have hmem := List.mem_reverse.mp hs
    rw [hq] at hmem
    exact ne_up_of_mem_foldl_step (by simp) s hmem
  refine ⟨(route q).reduce.segments.map String.ofList, fun name hname => ?_, ?_⟩
  · obtain ⟨s, hs, rfl⟩ := List.mem_map.mp hname
    refine ⟨by simpa using hproper s hs, fun he => hup s hs ?_⟩
    simpa using congrArg String.toList he
  · have hsegments : ((route q).reduce.segments.map String.ofList).map String.toList =
        (route q).reduce.segments := by
      simp [Function.comp_def]
    have hreduce : (route q).reduce = ⟨true, (route q).reduce.segments⟩ := by
      rw [← hq]
      rfl
    rw [pathOf, hsegments, Path.normalize, hreduce]

theorem toList_pathOf (l : Location) :
    (pathOf l).toList = '/' :: joinWith ['/'] (l.map String.toList) := by
  simp [pathOf, Route.text]

theorem isEmpty_pathOf (l : Location) : (pathOf l).isEmpty = false := by
  rw [← Bool.not_eq_true, String.isEmpty_iff]
  intro he
  have hlist := congrArg String.toList he
  simp [toList_pathOf] at hlist

theorem getLast?_pathOf {l : Location} (h : ∀ name ∈ l, IsName name) :
    (pathOf l).toList.getLast? = some '/' ↔ l = [] := by
  rw [toList_pathOf]
  rcases l.eq_nil_or_concat with rfl | ⟨k, name, rfl⟩
  · simp [joinWith]
  · rw [List.concat_eq_append] at h ⊢
    have hproper := (h name (by simp)).proper
    have hsome : name.toList.getLast?.isSome = true := by
      rw [List.getLast?_isSome]
      exact hproper.ne_nil
    obtain ⟨c, hc⟩ := Option.isSome_iff_exists.mp hsome
    have hslash : c ≠ '/' := fun he => hproper.no_slash (he ▸ List.mem_of_getLast? hc)
    have hlast : ∀ cs : List Char, (cs ++ name.toList).getLast? ≠ some '/' := fun cs => by
      simp [List.getLast?_append, hc, hslash]
    refine iff_of_false ?_ (by simp)
    rw [List.map_append, List.map_singleton]
    by_cases hk : k = []
    · subst hk
      exact hlast ['/']
    · rw [joinWith_concat (by simpa using hk), ← List.append_assoc, ← List.cons_append]
      exact hlast _

theorem join_pathOf {l : Location} {name : String} (hl : ∀ name ∈ l, IsName name)
    (hname : IsName name) : Path.join (pathOf l) name = pathOf (l ++ [name]) := by
  have hrelative : isAbsolute name = false := by
    rw [isAbsolute, beq_eq_false_iff_ne]
    exact fun he => hname.proper.no_slash (List.mem_of_head? he)
  have hjoin : Path.join (pathOf l) name =
      if l = [] then pathOf l ++ name else pathOf l ++ "/" ++ name := by
    simp only [Path.join, hrelative, isEmpty_pathOf, Bool.or_self, Bool.false_eq_true, if_false,
      beq_iff_eq, getLast?_pathOf hl]
  rw [hjoin, ← String.toList_inj]
  split
  · rename_i hnil
    subst hnil
    simp [toList_pathOf, joinWith]
  · rename_i hnil
    have hmap : l.map String.toList ≠ [] := by simpa using hnil
    have hbody := joinWith_concat hmap ['/'] name.toList
    rw [toList_pathOf, List.map_append, List.map_singleton, hbody]
    simp [toList_pathOf]

theorem leadsDown_of_isName {l : Location} (h : ∀ name ∈ l, IsName name) :
    ∀ s ∈ l.map String.toList, IsProper s ∧ s ≠ ['.', '.'] := by
  intro s hs
  obtain ⟨name, hname, rfl⟩ := List.mem_map.mp hs
  exact ⟨(h name hname).proper, (h name hname).toList_ne_up⟩

theorem foldl_step_names {l : Location} (h : ∀ name ∈ l, IsName name) (walked : List (List Char)) :
    (l.map String.toList).foldl (step true) walked = (l.map String.toList).reverse ++ walked :=
  Path.foldl_step_of_isProper (leadsDown_of_isName h) walked

theorem reduce_route_pathOf {l : Location} (h : ∀ name ∈ l, IsName name) :
    (route (pathOf l)).reduce = ⟨true, l.map String.toList⟩ := by
  rw [route_pathOf h]
  split
  · rename_i hnil
    subst hnil
    rfl
  · have hall := foldl_step_names h []
    have hstart : step true [] [] = [] := rfl
    simp only [Route.reduce, List.foldl_cons, hstart, hall, List.append_nil, List.reverse_reverse]

theorem normalize_pathOf {l : Location} (h : ∀ name ∈ l, IsName name) :
    Path.normalize (pathOf l) = pathOf l := by
  rw [Path.normalize, reduce_route_pathOf h]
  rfl

/-- The directory above a location is spelled by the path without its last name. -/
theorem parent?_pathOf {l : Location} {name : String} (hl : ∀ name ∈ l, IsName name)
    (hname : IsName name) : Path.parent? (pathOf (l ++ [name])) = some (pathOf l) := by
  have hall : ∀ n ∈ l ++ [name], IsName n := by
    rw [List.forall_mem_append]
    exact ⟨hl, by simpa using hname⟩
  have hcounts : ∀ n : String, IsName n → Path.isIdle false n.toList = false := fun n hn =>
    hn.proper.isIdle_eq_false false
  have hkept : Path.dropIdle false ((l.map String.toList).reverse ++ [[]]) =
      if l = [] then [] else (l.map String.toList).reverse ++ [[]] := by
    rcases l.eq_nil_or_concat with rfl | ⟨k, last, rfl⟩
    · rfl
    · rw [List.concat_eq_append] at hl ⊢
      have hlast := hcounts last (hl last (by simp))
      have hcons : ((k ++ [last]).map String.toList).reverse ++ [[]] =
          last.toList :: ((k.map String.toList).reverse ++ [[]]) := by simp
      obtain ⟨s, ss, hrest⟩ :=
        List.exists_cons_of_ne_nil (l := (k.map String.toList).reverse ++ [[]]) (by simp)
      rw [if_neg (by simp), hcons, hrest]
      simp [Path.dropIdle, hlast]
  have hsegments : (route (pathOf (l ++ [name]))).segments.reverse =
      name.toList :: ((l.map String.toList).reverse ++ [[]]) := by
    rw [route_pathOf hall]
    simp
  have habsolute : (route (pathOf (l ++ [name]))).isAbsolute = true := isAbsolute_pathOf _
  obtain ⟨s, ss, hrest⟩ :=
    List.exists_cons_of_ne_nil (l := (l.map String.toList).reverse ++ [[]]) (by simp)
  have hdropped : Path.dropIdle false (name.toList :: ((l.map String.toList).reverse ++ [[]])) =
      name.toList :: ((l.map String.toList).reverse ++ [[]]) := by
    rw [hrest]
    simp [Path.dropIdle, hcounts name hname]
  unfold Path.parent?
  simp only [hsegments, habsolute, Bool.not_true, hdropped, hkept]
  split
  · rename_i hnil
    subst hnil
    rfl
  · rename_i hnil
    have hbody : joinWith ['/'] ([] :: l.map String.toList) =
        '/' :: joinWith ['/'] (l.map String.toList) := by
      obtain ⟨x, xs, hxs⟩ := List.exists_cons_of_ne_nil hnil
      simp [hxs, joinWith]
    simp [pathOf, Route.text, hbody]

/-- Names are pushed up to the first that is a pattern; the last is never pushed. -/
theorem pushStatic_pathOf {k ns : Location} (hk : ∀ name ∈ k, IsName name)
    (hns : ∀ name ∈ ns, IsName name) :
    Path.Glob.pushStatic (pathOf k) (ns.map String.toList) =
      pathOf (k ++ ns.dropLast.takeWhile fun name => !Path.Glob.isPattern name.toList) := by
  induction ns generalizing k with
  | nil => simp [Path.Glob.pushStatic]
  | cons name ns ih =>
      rw [List.forall_mem_cons] at hns
      cases ns with
      | nil => simp [Path.Glob.pushStatic]
      | cons next rest =>
          have hempty : name.toList.isEmpty = false := by
            simpa using hns.1.proper.ne_nil
          have hdown : ∀ name' ∈ k ++ [name], IsName name' := by
            rw [List.forall_mem_append]
            exact ⟨hk, by simpa using hns.1⟩
          rw [List.map_cons, List.map_cons, Path.Glob.pushStatic, List.dropLast_cons_cons,
            List.takeWhile_cons]
          split
          · rename_i hpattern
            simp [hpattern]
          · rename_i hplain
            rw [hempty, Bool.false_and, if_neg Bool.false_ne_true, String.ofList_toList,
              join_pathOf hk hns.1, ← List.map_cons, ih hdown hns.2]
            simp [hplain]

/-- All matches of a pattern lie below the names in front of the first that is a pattern. -/
theorem staticBase_pathOf {l : Location} (hl : ∀ name ∈ l, IsName name) :
    Path.Glob.staticBase (pathOf l) =
      pathOf (l.dropLast.takeWhile fun name => !Path.Glob.isPattern name.toList) := by
  have hsplit := congrArg Route.segments (route_pathOf hl)
  rw [Path.Glob.staticBase]
  change splitOn '/' (pathOf l).toList = _ at hsplit
  rw [hsplit]
  by_cases hnil : l = []
  · subst hnil
    rfl
  · rw [if_neg hnil]
    have hpush := pushStatic_pathOf (k := []) (by simp) hl
    obtain ⟨name, rest, rfl⟩ := List.exists_cons_of_ne_nil hnil
    exact hpush

/-- The directory that all matches of a pattern lie in is spelled in full. -/
theorem spells_staticBase {pattern : String} (h : Spells pattern) :
    Spells (Path.Glob.staticBase pattern) := by
  obtain ⟨l, hl, rfl⟩ := h
  have hsub : ∀ name ∈ l.dropLast.takeWhile fun name => !Path.Glob.isPattern name.toList,
      IsName name := fun name hname =>
    hl name (List.dropLast_subset _ ((List.takeWhile_subset _) hname))
  exact ⟨_, hsub, (staticBase_pathOf hl).symm⟩

end Disk

end DefineBundle
