import DefineBundle.Proofs.Files.Locations
import DefineBundle.Proofs.Path.Patterns

/-!
# What paths denote

The location that an absolute path leads to by its text alone, name by name: `..` takes the last
name away, at the root there is none to take. The normal form of a path is the one path in full that
spells this location, so paths that denote the same location have one normal form, and paths that
spell locations in full are told apart by what they denote.
-/
namespace DefineBundle

namespace Disk

open DefineBundle.Path (IsProper isAbsolute isAbsolute_normalize isNormal_normalize route step)
open DefineBundle.Text

/-- From a location the names lead to another one, whatever is on the disk. -/
inductive Descent : Location → List String → Location → Prop
  | done {l : Location} : Descent l [] l
  | stay {l l' : Location} {name : String} {ns : List String} :
      name = "" ∨ name = "." → Descent l ns l' → Descent l (name :: ns) l'
  | up {l l' : Location} {ns : List String} :
      Descent l.dropLast ns l' → Descent l (".." :: ns) l'
  | down {l l' : Location} {name : String} {ns : List String} :
      IsName name → Descent (l ++ [name]) ns l' → Descent l (name :: ns) l'

/-- The location that an absolute path leads to by its text alone. -/
def Denotes (p : String) (l : Location) : Prop :=
  Descent [] (names p) l

theorem Descent.isName {l l' : Location} {ns : List String} (h : Descent l ns l')
    (hl : ∀ name ∈ l, IsName name) : ∀ name ∈ l', IsName name := by
  induction h with
  | done => exact hl
  | stay _ _ ih => exact ih hl
  | up _ ih => exact ih fun name hname => hl name (List.dropLast_subset _ hname)
  | down hname _ ih => exact ih (List.forall_mem_append.mpr ⟨hl, by simpa using hname⟩)

theorem step_up {l : Location} (hl : ∀ name ∈ l, IsName name) :
    step true (l.map String.toList).reverse ['.', '.'] =
      (l.dropLast.map String.toList).reverse := by
  rcases l.eq_nil_or_concat with rfl | ⟨k, last, rfl⟩
  · rfl
  · rw [List.concat_eq_append] at hl ⊢
    have hlast : last.toList ≠ ['.', '.'] := (hl last (by simp)).toList_ne_up
    simp [step, hlast]

theorem Descent.foldl_step {l l' : Location} {ns : List String} (h : Descent l ns l')
    (hl : ∀ name ∈ l, IsName name) :
    (ns.map String.toList).foldl (step true) (l.map String.toList).reverse =
      (l'.map String.toList).reverse := by
  induction h with
  | done => rfl
  | @stay l l' name ns hstay _ ih =>
      have hstep : step true (l.map String.toList).reverse name.toList =
          (l.map String.toList).reverse := by
        rcases hstay with rfl | rfl <;> rfl
      rw [List.map_cons, List.foldl_cons, hstep, ih hl]
  | @up l l' ns _ ih =>
      have hdots : "..".toList = ['.', '.'] := rfl
      have hrest := ih fun name hname => hl name (List.dropLast_subset _ hname)
      rw [List.map_cons, List.foldl_cons, hdots, step_up hl, hrest]
  | @down l l' name ns hname _ ih =>
      have hnamed : ∀ n ∈ [name], IsName n := by simpa using hname
      have hrest := ih (List.forall_mem_append.mpr ⟨hl, hnamed⟩)
      rw [List.map_append, List.reverse_append] at hrest
      rw [List.map_cons, List.foldl_cons, ← hrest]
      exact congrArg (List.foldl (step true) · _) (foldl_step_names hnamed _)

theorem exists_descent {ns : List String} (hns : ∀ name ∈ ns, '/' ∉ name.toList) (l : Location) :
    ∃ l', Descent l ns l' := by
  induction ns generalizing l with
  | nil => exact ⟨l, .done⟩
  | cons name ns ih =>
      rw [List.forall_mem_cons] at hns
      by_cases hstay : name = "" ∨ name = "."
      · obtain ⟨l', h⟩ := ih hns.2 l
        exact ⟨l', .stay hstay h⟩
      · by_cases hup : name = ".."
        · obtain ⟨l', h⟩ := ih hns.2 l.dropLast
          exact ⟨l', hup ▸ .up h⟩
        · obtain ⟨l', h⟩ := ih hns.2 (l ++ [name])
          rw [not_or] at hstay
          have hproper : IsProper name.toList :=
            ⟨fun he => hstay.1 (String.toList_inj.mp he),
              fun he => hstay.2 (String.toList_inj.mp he), hns.1⟩
          exact ⟨l', .down ⟨hproper, hup⟩ h⟩

theorem names_noSlash (p : String) : ∀ name ∈ names p, '/' ∉ name.toList := by
  intro name hname
  obtain ⟨s, hs, rfl⟩ := List.mem_map.mp hname
  rw [String.toList_ofList]
  exact not_mem_of_mem_splitOn hs

theorem exists_denotes (p : String) : ∃ l, Denotes p l :=
  exists_descent (names_noSlash p) []

variable {p q : String} {l : Location}

theorem Denotes.pathOf_eq (h : Denotes p l) (hp : isAbsolute p = true) :
    pathOf l = Path.normalize p := by
  have hsegments : (names p).map String.toList = (route p).segments := by
    simp [names, Function.comp_def]
  have hwalk := h.foldl_step (by simp)
  have hroute : (route p).isAbsolute = true := hp
  rw [hsegments, List.map_nil, List.reverse_nil] at hwalk
  rw [pathOf, Path.normalize, Path.Route.reduce, hroute, hwalk, List.reverse_reverse]

/-- Two absolute paths have one normal form just when they denote the same location. -/
theorem normalize_eq_normalize_iff (hp : isAbsolute p = true) (hq : isAbsolute q = true) :
    Path.normalize p = Path.normalize q ↔ ∃ l, Denotes p l ∧ Denotes q l := by
  constructor
  · intro he
    obtain ⟨k, hk⟩ := exists_denotes p
    obtain ⟨l, hl⟩ := exists_denotes q
    have hsame : pathOf k = pathOf l := (hk.pathOf_eq hp).trans (he.trans (hl.pathOf_eq hq).symm)
    obtain rfl := pathOf_injective (hk.isName (by simp)) (hl.isName (by simp)) hsame
    exact ⟨k, hk, hl⟩
  · rintro ⟨l, hk, hl⟩
    rw [← hk.pathOf_eq hp, hl.pathOf_eq hq]

theorem spells_normalize (h : isAbsolute p = true) : Spells (Path.normalize p) :=
  spells_of_isNormal (isNormal_normalize p) (isAbsolute_normalize h)

theorem Spells.isAbsolute (h : Spells p) : isAbsolute p = true := by
  obtain ⟨l, -, rfl⟩ := h
  exact isAbsolute_pathOf l

theorem Spells.normalize_eq (h : Spells p) : Path.normalize p = p := by
  obtain ⟨l, hl, rfl⟩ := h
  exact normalize_pathOf hl

theorem spells_iff : Spells p ↔ isAbsolute p = true ∧ Path.normalize p = p :=
  ⟨fun h => ⟨h.isAbsolute, h.normalize_eq⟩, fun h => h.2 ▸ spells_normalize h.1⟩

instance (p : String) : Decidable (Spells p) :=
  decidable_of_iff _ spells_iff.symm

/-- Paths that spell locations denote different ones when they are different. -/
theorem Spells.eq_iff (hp : Spells p) (hq : Spells q) :
    p = q ↔ ∃ l, Denotes p l ∧ Denotes q l := by
  rw [← normalize_eq_normalize_iff hp.isAbsolute hq.isAbsolute, hp.normalize_eq, hq.normalize_eq]

theorem spells_entryDirectory (h : Spells p) (hroot : p ≠ "/") :
    Spells (Path.Glob.entryDirectory p) := by
  rw [Path.Glob.entryDirectory]
  split
  · exact spells_staticBase h
  · obtain ⟨l, hl, rfl⟩ := h
    rcases l.eq_nil_or_concat with rfl | ⟨k, name, rfl⟩
    · exact absurd rfl hroot
    · rw [List.concat_eq_append, List.forall_mem_append] at *
      rw [Path.parent, parent?_pathOf hl.1 (hl.2 name (by simp))]
      exact ⟨k, hl.1, rfl⟩

end Disk

namespace Path.Glob

/-- A pattern from the root matches nothing but paths from the root. -/
theorem isAbsolute_of_matchesPath {pattern path : String} (hpattern : isAbsolute pattern = true)
    (h : matchesPath pattern path = true) : isAbsolute path = true := by
  obtain ⟨rest, hrest⟩ := List.head?_eq_some_iff.mp (eq_of_beq hpattern)
  have hslash : ['/'] <+: pattern.toList := ⟨rest, hrest.symm⟩
  obtain ⟨more, hmore⟩ := prefix_of_matchesPath hpattern hslash (by decide) h
  simp [isAbsolute, ← hmore]

end Path.Glob

end DefineBundle
