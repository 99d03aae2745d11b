import DefineBundle.Path.Basic
import DefineBundle.Proofs.Text.Pieces

/-!
# Normal forms of paths

A path in normal form can be read back from its components, so two paths in normal form that differ
in spelling alone are equal. Its segments are those of a reduced route: none is empty, none is `.`,
and none holds a slash.
-/
namespace DefineBundle.Path

open DefineBundle.Text

/-- A segment that leads somewhere. -/
structure IsProper (segment : List Char) : Prop where
  ne_nil : segment ≠ []
  ne_dot : segment ≠ ['.']
  no_slash : '/' ∉ segment

/-- A path that is the normal form of some path. -/
def IsNormal (p : String) : Prop :=
  ∃ q, normalize q = p

theorem isNormal_normalize (p : String) : IsNormal (normalize p) :=
  ⟨p, rfl⟩

theorem step_of_isProper {isAbsolute : Bool} {segment : List Char} (h : IsProper segment)
    (hup : segment ≠ ['.', '.']) (walked : List (List Char)) :
    step isAbsolute walked segment = segment :: walked := by
  simp [step, h.ne_nil, h.ne_dot, hup]

theorem foldl_step_of_isProper {isAbsolute : Bool} {segments : List (List Char)}
    (h : ∀ s ∈ segments, IsProper s ∧ s ≠ ['.', '.']) (walked : List (List Char)) :
    segments.foldl (step isAbsolute) walked = segments.reverse ++ walked := by
  induction segments generalizing walked with
  | nil => rfl
  | cons s segments ih =>
      obtain ⟨⟨hproper, hup⟩, hsegments⟩ := List.forall_mem_cons.mp h
      rw [List.foldl_cons, step_of_isProper hproper hup, ih hsegments, List.reverse_cons,
        List.append_assoc]
      rfl

theorem mem_of_mem_step {isAbsolute : Bool} {walked : List (List Char)} {segment s : List Char}
    (hs : s ∈ step isAbsolute walked segment) :
    s ∈ walked ∨ s = segment ∧ s ≠ [] ∧ s ≠ ['.'] := by
  unfold step at hs
  split at hs
  · exact .inl hs
  · rename_i hidle
    simp only [Bool.or_eq_true, beq_iff_eq, not_or] at hidle
    have hcons : s ∈ segment :: walked → s ∈ walked ∨ s = segment ∧ s ≠ [] ∧ s ≠ ['.'] := by
      intro hs
      rcases List.mem_cons.mp hs with rfl | hs
      · exact .inr ⟨rfl, hidle⟩
      · exact .inl hs
    split at hs
    · cases walked with
      | nil =>
          dsimp only at hs
          split at hs
          · cases hs
          · exact hcons hs
      | cons last before =>
          dsimp only at hs
          split at hs
          · exact hcons hs
          · exact .inl (List.mem_cons_of_mem _ hs)
    · exact hcons hs

theorem mem_of_mem_foldl_step {isAbsolute : Bool} {segments walked : List (List Char)}
    {s : List Char} (hs : s ∈ segments.foldl (step isAbsolute) walked) :
    s ∈ walked ∨ s ∈ segments ∧ s ≠ [] ∧ s ≠ ['.'] := by
  induction segments generalizing walked with
  | nil => exact .inl hs
  | cons segment segments ih =>
      rcases ih hs with hstep | ⟨hmem, hne⟩
      · rcases mem_of_mem_step hstep with hw | ⟨rfl, hne⟩
        · exact .inl hw
        · exact .inr ⟨List.mem_cons_self, hne⟩
      · exact .inr ⟨List.mem_cons_of_mem _ hmem, hne⟩

theorem mem_of_mem_reduce {p : String} {s : List Char} (hs : s ∈ (route p).reduce.segments) :
    s ∈ splitOn '/' p.toList ∧ s ≠ [] ∧ s ≠ ['.'] := by
  rcases mem_of_mem_foldl_step (List.mem_reverse.mp hs) with hnil | hmem
  · cases hnil
  · exact hmem

theorem isProper_of_mem_reduce {p : String} {s : List Char}
    (hs : s ∈ (route p).reduce.segments) : IsProper s := by
  obtain ⟨hmem, hnil, hdot⟩ := mem_of_mem_reduce hs
  exact ⟨hnil, hdot, not_mem_of_mem_splitOn hmem⟩

/-- A normal form has no characters of its own but the signs of paths. -/
theorem mem_of_mem_normalize {p : String} {c : Char} (hc : c ∈ (normalize p).toList) :
    c = '/' ∨ c = '.' ∨ c ∈ p.toList := by
  have hbody : c ∈ joinWith ['/'] (route p).reduce.segments → c = '/' ∨ c = '.' ∨ c ∈ p.toList := by
    intro hc
    rcases mem_joinWith hc with hslash | ⟨s, hs, hmem⟩
    · exact .inl (List.mem_singleton.mp hslash)
    · exact .inr (.inr (subset_of_mem_splitOn (mem_of_mem_reduce hs).1 hmem))
  unfold normalize Route.text at hc
  dsimp only at hc
  split at hc
  · rw [String.toList_ofList] at hc
    rcases List.mem_cons.mp hc with rfl | hc
    · exact .inl rfl
    · exact hbody hc
  · split at hc
    · exact .inr (.inl (List.mem_singleton.mp hc))
    · rw [String.toList_ofList] at hc
      exact hbody hc

theorem mem_of_mem_join {base p : String} {c : Char} (hc : c ∈ (join base p).toList) :
    c = '/' ∨ c ∈ base.toList ∨ c ∈ p.toList := by
  unfold join at hc
  split at hc
  · exact .inr (.inr hc)
  · split at hc
    · rw [String.toList_append] at hc
      exact .inr (List.mem_append.mp hc)
    · rw [String.toList_append, String.toList_append, List.mem_append, List.mem_append] at hc
      rcases hc with (hc | hc) | hc
      · exact .inr (.inl hc)
      · exact .inl (List.mem_singleton.mp hc)
      · exact .inr (.inr hc)

theorem IsProper.isIdle_eq_false {s : List Char} (h : IsProper s) (isFirst : Bool) :
    isIdle isFirst s = false := by
  simp [isIdle, h.ne_nil, h.ne_dot]

theorem filter_isIdle_of_isProper {segments : List (List Char)}
    (h : ∀ s ∈ segments, IsProper s) :
    segments.filter (fun s => !isIdle false s) = segments :=
  List.filter_eq_self.mpr fun s hs => by simp [(h s hs).isIdle_eq_false]

/-- Proper segments do not start with a slash when they are put together. -/
theorem head?_joinWith_ne_slash {segments : List (List Char)} (h : ∀ s ∈ segments, IsProper s) :
    (joinWith ['/'] segments).head? ≠ some '/' := by
  cases segments with
  | nil => simp [joinWith]
  | cons s segments =>
      have hs := h s List.mem_cons_self
      obtain ⟨c, cs, rfl⟩ := List.exists_cons_of_ne_nil hs.ne_nil
      have hc : c ≠ '/' := fun he => hs.no_slash (by simp [he])
      rw [joinWith_eq]
      cases segments with
      | nil => simpa using hc
      | cons s' segments => simpa [List.intercalate_cons_cons] using hc

theorem route_text_absolute (segments : List (List Char)) :
    route (Route.text ⟨true, segments⟩) =
      ⟨true, [] :: splitOn '/' (joinWith ['/'] segments)⟩ := by
  simp [Route.text, route, isAbsolute, splitOn]

theorem route_text_relative {s : List Char} {segments : List (List Char)}
    (h : ∀ t ∈ s :: segments, IsProper t) :
    route (Route.text ⟨false, s :: segments⟩) = ⟨false, s :: segments⟩ := by
  have hhead := head?_joinWith_ne_slash h
  have hsplit := splitOn_joinWith (by simp) fun s hs => (h s hs).no_slash
  simp [Route.text, route, isAbsolute, hhead, hsplit]

/-- The components of a route in normal form are its segments, or the directory itself. -/
theorem components_text {r : Route} (h : ∀ s ∈ r.segments, IsProper s) :
    components r.text =
      if r.isAbsolute = false ∧ r.segments = [] then ⟨false, [['.']]⟩ else r := by
  obtain ⟨isAbs, segments⟩ := r
  dsimp only at h
  cases isAbs with
  | true =>
      have hcomp : components (Route.text ⟨true, segments⟩) =
          ⟨true, (splitOn '/' (joinWith ['/'] segments)).filter fun s => !isIdle false s⟩ := by
        simp only [components, route_text_absolute]
        rfl
      rw [hcomp]
      cases segments with
      | nil => rfl
      | cons s segments =>
          rw [splitOn_joinWith (by simp) fun s hs => (h s hs).no_slash,
            filter_isIdle_of_isProper h]
          simp
  | false =>
      cases segments with
      | nil => rfl
      | cons s segments =>
          have hs := (h s List.mem_cons_self).isIdle_eq_false true
          have hrest := filter_isIdle_of_isProper fun s hs => h s (List.mem_cons_of_mem _ hs)
          simp [components, route_text_relative h, hs, hrest]

theorem IsNormal.text_components {p : String} (h : IsNormal p) : (components p).text = p := by
  obtain ⟨q, rfl⟩ := h
  rw [normalize, components_text fun s hs => isProper_of_mem_reduce hs]
  split
  · rename_i he
    simp [Route.text, joinWith, he]
  · rfl

theorem IsNormal.eq_of_components_eq {p q : String} (hp : IsNormal p) (hq : IsNormal q)
    (h : components p = components q) : p = q := by
  rw [← hp.text_components, h, hq.text_components]

/-- Walked segments, the last one first, of which each was kept when it was reached. -/
def IsSettled (isAbsolute : Bool) : List (List Char) → Prop
  | [] => True
  | s :: before => step isAbsolute before s = s :: before ∧ IsSettled isAbsolute before

theorem IsSettled.step {isAbsolute : Bool} {walked : List (List Char)}
    (h : IsSettled isAbsolute walked) (segment : List Char) :
    IsSettled isAbsolute (step isAbsolute walked segment) := by
  generalize hr : Path.step isAbsolute walked segment = result
  have hkept : result = segment :: walked → IsSettled isAbsolute result := by
    rintro rfl
    exact ⟨hr, h⟩
  unfold Path.step at hr
  split at hr
  · exact hr ▸ h
  · split at hr
    · cases walked with
      | nil =>
          dsimp only at hr
          split at hr
          · exact hr ▸ trivial
          · exact hkept hr.symm
      | cons last before =>
          dsimp only at hr
          split at hr
          · exact hkept hr.symm
          · exact hr ▸ h.2
    · exact hkept hr.symm

theorem IsSettled.foldl_step {isAbsolute : Bool} {walked : List (List Char)}
    (h : IsSettled isAbsolute walked) (segments : List (List Char)) :
    IsSettled isAbsolute (segments.foldl (Path.step isAbsolute) walked) := by
  induction segments generalizing walked with
  | nil => exact h
  | cons segment segments ih => exact ih (h.step segment)

theorem IsSettled.foldl_reverse {isAbsolute : Bool} {walked : List (List Char)}
    (h : IsSettled isAbsolute walked) :
    walked.reverse.foldl (Path.step isAbsolute) [] = walked := by
  induction walked with
  | nil => rfl
  | cons s before ih =>
      rw [List.reverse_cons, List.foldl_append, ih h.2]
      exact h.1

theorem reduce_reduce (r : Route) : r.reduce.reduce = r.reduce := by
  have hstart : IsSettled r.isAbsolute [] := trivial
  have hsettled := hstart.foldl_step r.segments
  have hagain := hsettled.foldl_reverse
  simp only [Route.reduce, hagain]

/-- The text of proper segments is read as those segments, but for idle ones. -/
theorem reduce_route_text {r : Route} (h : ∀ s ∈ r.segments, IsProper s) :
    (route r.text).reduce = r.reduce := by
  obtain ⟨isAbs, segments⟩ := r
  dsimp only at h
  cases isAbs with
  | true =>
      rw [route_text_absolute]
      cases segments with
      | nil => rfl
      | cons s segments =>
          rw [splitOn_joinWith (by simp) fun s hs => (h s hs).no_slash]
          rfl
  | false =>
      cases segments with
      | nil => rfl
      | cons s segments =>
          rw [route_text_relative h]

theorem IsNormal.normalize_eq {p : String} (h : IsNormal p) : normalize p = p := by
  obtain ⟨q, rfl⟩ := h
  have hproper : ∀ s ∈ (route q).reduce.segments, IsProper s :=
    fun _ hs => isProper_of_mem_reduce hs
  rw [normalize, normalize, reduce_route_text hproper, reduce_reduce]

theorem isAbsolute_normalize {p : String} (h : isAbsolute p = true) :
    isAbsolute (normalize p) = true := by
  have hreduce : (route p).reduce.isAbsolute = true := h
  simp [normalize, Route.text, hreduce, isAbsolute]

theorem isAbsolute_of_normalize {p : String} (h : isAbsolute (normalize p) = true) :
    isAbsolute p = true := by
  rw [← Bool.not_eq_false]
  intro hrelative
  have hhead := head?_joinWith_ne_slash fun s hs => isProper_of_mem_reduce (p := p) hs
  have hreduce : (route p).reduce.isAbsolute = false := hrelative
  simp only [normalize, Route.text, hreduce, isAbsolute] at h
  split at h
  · simp_all
  · split at h
    · exact absurd h (by decide)
    · simp_all

theorem isAbsolute_join {base : String} (h : isAbsolute base = true) (p : String) :
    isAbsolute (join base p) = true := by
  unfold join
  split
  · rename_i hp
    rcases Bool.or_eq_true_iff.mp hp with hp | hempty
    · exact hp
    · rw [String.isEmpty_iff.mp hempty] at h
      cases h
  · have hhead : base.toList.head? = some '/' := by simpa [isAbsolute] using h
    split <;> simp [isAbsolute, hhead]

end DefineBundle.Path
