import DefineBundle.Proofs.Files.Locations
import Mathlib.Data.List.Induction

/-!
# Relative paths

The way from a directory to a file, followed from that directory, leads to the file: it goes up as
far as the two have nothing in common, and down from there.
-/
namespace DefineBundle.Path

open DefineBundle.Disk DefineBundle.Text

theorem exists_dropCommon (as bs : List (List Char)) :
    ∃ common, as = common ++ (dropCommon as bs).1 ∧ bs = common ++ (dropCommon as bs).2 := by
  fun_induction dropCommon as bs with
  | case1 a as b bs he ih =>
      obtain ⟨common, has, hbs⟩ := ih
      obtain rfl : a = b := by simpa using he
      exact ⟨a :: common, congrArg (a :: ·) has, congrArg (a :: ·) hbs⟩
  | case2 a as b bs he => exact ⟨[], rfl, rfl⟩
  | case3 as bs => exact ⟨[], rfl, rfl⟩

theorem reduce_route_join {k : Location} (hk : ∀ name ∈ k, IsName name) {p : String}
    (hp : isAbsolute p = false) : (route (join (pathOf k) p)).reduce =
      ⟨true, ((splitOn '/' p.toList).foldl (step true) (k.map String.toList).reverse).reverse⟩ := by
  have hroute : route (join (pathOf k) p) =
      ⟨true, [] :: (k.map String.toList ++ splitOn '/' p.toList)⟩ := by
    have habsolute : isAbsolute (join (pathOf k) p) = true :=
      isAbsolute_join (isAbsolute_pathOf k) p
    rw [route, habsolute]
    congr 1
    simp only [join, hp, isEmpty_pathOf, Bool.or_self, Bool.false_eq_true, if_false, beq_iff_eq,
      getLast?_pathOf hk]
    split
    · rename_i hnil
      subst hnil
      simp [toList_pathOf, joinWith, splitOn]
    · rename_i hnil
      have hslashes : ∀ s ∈ k.map String.toList, '/' ∉ s := by
        intro s hs
        obtain ⟨name, hname, rfl⟩ := List.mem_map.mp hs
        exact (hk name hname).proper.no_slash
      have hsplit := splitOn_joinWith (by simpa using hnil) hslashes
      simp [toList_pathOf, splitOn, splitOn_append_cons, hsplit]
  have hstart : step true [] [] = [] := rfl
  rw [hroute]
  simp only [Route.reduce, List.foldl_cons, hstart, List.foldl_append, foldl_step_names hk,
    List.append_nil]

theorem foldl_step_up {names : List (List Char)} (h : ∀ s ∈ names, s ≠ ['.', '.'])
    (walked : List (List Char)) :
    (names.map fun _ => ['.', '.']).foldl (step true) (names.reverse ++ walked) = walked := by
  induction names using List.reverseRecOn generalizing walked with
  | nil => rfl
  | append_singleton names s ih =>
      have hs : s ≠ ['.', '.'] := h s (by simp)
      have hrest := ih (fun s hs => h s (by simp [hs])) walked
      have hmap : (names ++ [s]).map (fun _ => ['.', '.']) =
          ['.', '.'] :: names.map fun _ => ['.', '.'] := by
        rw [List.map_const', List.map_const', ← List.replicate_succ, List.length_append,
          List.length_singleton]
      have hstep :
          step true (s :: (names.reverse ++ walked)) ['.', '.'] = names.reverse ++ walked := by
        simp [step, hs]
      rw [hmap, List.reverse_append, List.reverse_singleton, List.singleton_append,
        List.foldl_cons, List.cons_append, hstep, hrest]

theorem segments_absolute_pathOf {l : Location} (hl : ∀ name ∈ l, IsName name) :
    (route (absolute (pathOf l))).reduce.segments = l.map String.toList := by
  have hjoin : join "/" (pathOf l) = pathOf l := by simp [join, isAbsolute_pathOf]
  rw [absolute, hjoin, normalize_pathOf hl, reduce_route_pathOf hl]

theorem relative_pathOf {l k : Location} (hl : ∀ name ∈ l, IsName name)
    (hk : ∀ name ∈ k, IsName name) :
    relative (pathOf l) (pathOf k) =
      let rest := dropCommon (k.map String.toList) (l.map String.toList)
      String.ofList (joinWith ['/'] (rest.1.map (fun _ => ['.', '.']) ++ rest.2)) := by
  rw [relative, segments_absolute_pathOf hl, segments_absolute_pathOf hk]

/-- The way from a directory to a path leads from the directory to the path. -/
theorem normalize_join_relative {p base : String} (hp : Spells p) (hbase : Spells base) :
    normalize (join base (relative p base)) = p := by
  obtain ⟨l, hl, rfl⟩ := hp
  obtain ⟨k, hk, rfl⟩ := hbase
  obtain ⟨common, hup, hdown⟩ := exists_dropCommon (k.map String.toList) (l.map String.toList)
  have hrelative := relative_pathOf hl hk
  generalize dropCommon (k.map String.toList) (l.map String.toList) = rest at hup hdown hrelative
  obtain ⟨up, down⟩ := rest
  dsimp only at hup hdown hrelative
  have hups : ∀ s ∈ up, IsProper s ∧ s ≠ ['.', '.'] := fun s hs =>
    leadsDown_of_isName hk s (hup ▸ List.mem_append_right _ hs)
  have hdowns : ∀ s ∈ down, IsProper s ∧ s ≠ ['.', '.'] := fun s hs =>
    leadsDown_of_isName hl s (hdown ▸ List.mem_append_right _ hs)
  have hproper : ∀ s ∈ up.map (fun _ => ['.', '.']) ++ down, IsProper s := by
    intro s hs
    rcases List.mem_append.mp hs with hs | hs
    · obtain ⟨_, -, rfl⟩ := List.mem_map.mp hs
      exact ⟨by simp, by simp, by simp⟩
    · exact (hdowns s hs).1
  have hfrom : isAbsolute (relative (pathOf l) (pathOf k)) = false := by
    simpa [hrelative, isAbsolute] using head?_joinWith_ne_slash hproper
  have hwalk : (up.map (fun _ => ['.', '.']) ++ down).foldl (step true)
      (k.map String.toList).reverse = (l.map String.toList).reverse := by
    rw [List.foldl_append, hup, List.reverse_append, foldl_step_up fun s hs => (hups s hs).2,
      foldl_step_of_isProper hdowns, hdown, List.reverse_append]
  have hsplit : (splitOn '/' (joinWith ['/'] (up.map (fun _ => ['.', '.']) ++ down))).foldl
      (step true) (k.map String.toList).reverse = (l.map String.toList).reverse := by
    by_cases hempty : up.map (fun _ => ['.', '.']) ++ down = []
    · rw [hempty] at hwalk ⊢
      exact hwalk
    · rw [splitOn_joinWith hempty fun s hs => (hproper s hs).no_slash]
      exact hwalk
  rw [normalize, reduce_route_join hk hfrom, hrelative, String.toList_ofList, hsplit,
    List.reverse_reverse]
  rfl

end DefineBundle.Path
