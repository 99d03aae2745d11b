import DefineBundle.Failure
import Mathlib.Data.List.Forall2

/-!
# What is made of the elements of a list

A list is read, parsed or written element by element, and the first element of which nothing can be
made is the one to blame. So what is made of a whole list is a statement about its elements: each is
related to what stands at its place in the other list.
-/
namespace DefineBundle

section

variable {α β γ : Type} {r : α → β → Prop} {xs : List α} {ys : List β}

theorem exists_of_forall₂ (h : List.Forall₂ r xs ys) {x : α} (hx : x ∈ xs) : ∃ y ∈ ys, r x y := by
  induction h with
  | nil => cases hx
  | @cons a b as bs hab _ ih =>
      rcases List.mem_cons.mp hx with rfl | hx
      · exact ⟨b, List.mem_cons_self, hab⟩
      · obtain ⟨y, hy, hr⟩ := ih hx
        exact ⟨y, List.mem_cons_of_mem _ hy, hr⟩

theorem forall_of_forall₂ {P : α → Prop} (h : List.Forall₂ (fun x _ => P x) xs ys) :
    ∀ x ∈ xs, P x := by
  intro x hx
  obtain ⟨_, _, hP⟩ := exists_of_forall₂ h hx
  exact hP

theorem map_eq_map_of_forall₂ {f : α → γ} {g : β → γ} (h : List.Forall₂ r xs ys)
    (hfg : ∀ x y, r x y → f x = g y) : xs.map f = ys.map g := by
  induction h with
  | nil => rfl
  | cons hab _ ih => rw [List.map_cons, List.map_cons, hfg _ _ hab, ih]

theorem forall₂_map {f : α → β} (h : ∀ x ∈ xs, r x (f x)) : List.Forall₂ r xs (xs.map f) :=
  List.forall₂_map_right_iff.mpr (List.forall₂_same.mpr h)

theorem forall₂_map_map {f : γ → α} {g : γ → β} {zs : List γ} (h : ∀ z ∈ zs, r (f z) (g z)) :
    List.Forall₂ r (zs.map f) (zs.map g) :=
  List.forall₂_map_left_iff.mpr (forall₂_map h)

end

section

variable {α β : Type} {f : α → Option β} {xs : List α} {ys : List β}

theorem mapM_eq_some_iff :
    xs.mapM f = some ys ↔ List.Forall₂ (fun x y => f x = some y) xs ys := by
  induction xs generalizing ys with
  | nil => simp [eq_comm]
  | cons x xs ih =>
      rw [List.mapM_cons]
      simp only [Option.bind_eq_bind, Option.bind_eq_some_iff, ih, List.forall₂_cons_left_iff,
        Option.pure_def, Option.some.injEq]
      constructor
      · rintro ⟨y, hy, ys, hys, rfl⟩
        exact ⟨y, ys, hy, hys, rfl⟩
      · rintro ⟨y, ys, hy, hys, rfl⟩
        exact ⟨y, hy, ys, hys, rfl⟩

theorem isSome_of_forall₂ (h : List.Forall₂ (fun x y => f x = some y) xs ys) :
    ∀ x ∈ xs, (f x).isSome :=
  forall_of_forall₂ (h.imp fun _ _ => Option.isSome_of_eq_some)

theorem exists_mapM_eq_some (h : ∀ x ∈ xs, (f x).isSome) : ∃ ys, xs.mapM f = some ys := by
  induction xs with
  | nil => exact ⟨[], rfl⟩
  | cons x xs ih =>
      obtain ⟨y, hy⟩ := Option.isSome_iff_exists.mp (h x List.mem_cons_self)
      obtain ⟨ys, hys⟩ := ih fun z hz => h z (List.mem_cons_of_mem _ hz)
      exact ⟨y :: ys, by rw [List.mapM_cons, hy, hys]; rfl⟩

theorem mapM_eq_none_iff : xs.mapM f = none ↔ ∃ x ∈ xs, f x = none := by
  constructor
  · intro h
    by_contra hno
    obtain ⟨ys, hys⟩ := exists_mapM_eq_some fun x hx =>
      Option.isSome_iff_ne_none.mpr fun hx' => hno ⟨x, hx, hx'⟩
    rw [h] at hys
    cases hys
  · rintro ⟨x, hx, hnone⟩
    cases hall : xs.mapM f with
    | none => rfl
    | some ys =>
        have hsome := isSome_of_forall₂ (mapM_eq_some_iff.mp hall) x hx
        rw [hnone] at hsome
        cases hsome

theorem mapM_modify {m : α → α} {i : Nat} (h : ∀ x, xs[i]? = some x → f (m x) = f x) :
    (xs.modify i m).mapM f = xs.mapM f := by
  induction xs generalizing i with
  | nil => rw [List.modify_nil]
  | cons x xs ih =>
      cases i with
      | zero => rw [List.modify_zero_cons, List.mapM_cons, List.mapM_cons, h x rfl]
      | succ i =>
          rw [List.modify_succ_cons, List.mapM_cons, List.mapM_cons, ih fun y hy => h y hy]

end

section

variable {α β ε : Type} {f : α → Except ε β} {xs : List α} {ys : List β}

theorem mapM_eq_ok_iff :
    xs.mapM f = .ok ys ↔ List.Forall₂ (fun x y => f x = .ok y) xs ys := by
  induction xs generalizing ys with
  | nil => simp [pure, Except.pure, eq_comm]
  | cons x xs ih =>
      rw [List.mapM_cons, List.forall₂_cons_left_iff]
      constructor
      · intro h
        obtain ⟨y, hy, h⟩ := exists_of_bind_eq_ok h
        obtain ⟨zs, hzs, h⟩ := exists_of_bind_eq_ok h
        obtain rfl := Except.ok.inj h
        exact ⟨y, zs, hy, ih.mp hzs, rfl⟩
      · rintro ⟨y, zs, hy, hzs, rfl⟩
        rw [hy, ih.mpr hzs]
        rfl

theorem mapM_eq_ok_map {g : α → β} (h : ∀ x ∈ xs, f x = .ok (g x)) :
    xs.mapM f = .ok (xs.map g) :=
  mapM_eq_ok_iff.mpr (forall₂_map h)

theorem exists_of_mem_mapM (h : xs.mapM f = .ok ys) {y : β} (hy : y ∈ ys) :
    ∃ x ∈ xs, f x = .ok y :=
  exists_of_forall₂ (mapM_eq_ok_iff.mp h).flip hy

/-- What is made of the elements of a list when something is made of all of them. -/
theorem exists_map_of_mapM [Inhabited β] (h : xs.mapM f = .ok ys) :
    ∃ g : α → β, (∀ x ∈ xs, f x = .ok (g x)) ∧ ys = xs.map g := by
  have hall : List.Forall₂ (fun x y => f x = .ok y) xs ys := mapM_eq_ok_iff.mp h
  have hvalue : ∀ x y, f x = .ok y → (f x).toOption.getD default = y := by
    intro x y hy
    rw [hy]
    rfl
  refine ⟨fun x => (f x).toOption.getD default, ?_, ?_⟩
  · intro x hx
    obtain ⟨y, -, hy⟩ := exists_of_forall₂ hall hx
    exact hy.trans (congrArg Except.ok (hvalue x y hy).symm)
  · have hmap := map_eq_map_of_forall₂ (g := id) hall hvalue
    rw [hmap, List.map_id]

/-- What cannot be made of a list cannot be made of the first element to blame. -/
theorem mapM_eq_error_iff {e : ε} :
    xs.mapM f = .error e ↔ ∃ before x after, xs = before ++ x :: after ∧
      (∀ b ∈ before, ∃ y, f b = .ok y) ∧ f x = .error e := by
  induction xs with
  | nil => simp [pure, Except.pure]
  | cons x xs ih =>
      rw [List.mapM_cons]
      constructor
      · intro h
        cases hx : f x with
        | error other =>
            rw [hx] at h
            cases h
            exact ⟨[], x, xs, rfl, fun b hb => absurd hb List.not_mem_nil, hx⟩
        | ok y =>
            cases hxs : xs.mapM f with
            | ok ys =>
                rw [hx, hxs] at h
                cases h
            | error other =>
                rw [hx, hxs] at h
                cases h
                obtain ⟨before, z, after, rfl, hbefore, hz⟩ := ih.mp hxs
                exact ⟨x :: before, z, after, rfl, List.forall_mem_cons.mpr ⟨⟨y, hx⟩, hbefore⟩, hz⟩
      · rintro ⟨before, z, after, hsplit, hbefore, hz⟩
        cases before with
        | nil =>
            obtain ⟨rfl, rfl⟩ := List.cons.inj hsplit
            rw [hz]
            rfl
        | cons b before =>
            obtain ⟨rfl, rfl⟩ := List.cons.inj hsplit
            obtain ⟨⟨y, hy⟩, hbefore⟩ := List.forall_mem_cons.mp hbefore
            rw [hy, ih.mpr ⟨before, z, after, rfl, hbefore, hz⟩]
            rfl

theorem exists_of_mapM_eq_error {e : ε} (h : xs.mapM f = .error e) : ∃ x ∈ xs, f x = .error e := by
  obtain ⟨before, x, after, rfl, -, hx⟩ := mapM_eq_error_iff.mp h
  exact ⟨x, List.mem_append_right _ List.mem_cons_self, hx⟩

theorem exists_mapM_eq_ok (h : ∀ x ∈ xs, ∃ y, f x = .ok y) : ∃ ys, xs.mapM f = .ok ys := by
  cases hxs : xs.mapM f with
  | ok ys => exact ⟨ys, rfl⟩
  | error e =>
      obtain ⟨x, hx, he⟩ := exists_of_mapM_eq_error hxs
      obtain ⟨y, hy⟩ := h x hx
      rw [hy] at he
      cases he

end

end DefineBundle
