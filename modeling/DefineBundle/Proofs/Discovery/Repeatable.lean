import DefineBundle.Proofs.Discovery.Reachability

/-!
# Discoveries from the same inputs

What a discovery comes to depends on the entries that its inputs stand for and on the files that the
entries reach, and on nothing else. The steps are deterministic, and each asks for one file; so they
are the same steps wherever those files are the same, whatever else has changed.
-/
namespace DefineBundle.Discovery

open DefineBundle.Script (Declaration)
open DefineBundle.Path (IsNormal)
open Relation (ReflTransGen)

/-- A path leads to the same file, or in both cases to none. -/
structure SameAt (view view' : FileView) (path : String) : Prop
    extends view.SameText view' path where
  modified : view.isFile path = true → view'.modified path = view.modified path

/-- The inputs stand for the same entries, and the files that they reach are the same. -/
structure SameInputs (s : Settings) (view view' : FileView) : Prop where
  expanded : ∀ input ∈ s.input, entriesOf view' input = entriesOf view input
  files : ∀ es, entries view s = .ok es → ∀ p, Reachable view s es p → SameAt view view' p

section
variable {view view' : FileView} {s : Settings} {es : List String}

theorem Does.unique {j : Job} {d d₁ d₂ : Discovery} {new₁ new₂ : List Job}
    (h₁ : Does view s j d new₁ d₁) (h₂ : Does view s j d new₂ d₂) : new₁ = new₂ ∧ d₁ = d₂ := by
  cases h₁ with
  | known hv =>
      cases h₂ with
      | known _ => exact ⟨rfl, rfl⟩
      | opened hnew _ _ => exact absurd hv hnew
  | opened hnew hfetch hms =>
      cases h₂ with
      | known hv => exact absurd hv hnew
      | opened _ hfetch' hms' =>
          rw [hfetch] at hfetch'
          cases hfetch'
          rw [hms] at hms'
          cases hms'
          exact ⟨rfl, rfl⟩
  | arity =>
      cases h₂
      exact ⟨rfl, rfl⟩
  | skipped hno =>
      cases h₂ with
      | skipped _ => exact ⟨rfl, rfl⟩
      | declared hf _ _ => exact absurd hf hno
      | circular hf _ _ => exact absurd hf hno
      | followed hf _ => exact absurd hf hno
  | declared hf hl he =>
      cases h₂ with
      | skipped hno => exact absurd hf hno
      | declared _ _ _ => exact ⟨rfl, rfl⟩
      | circular _ _ hne => exact absurd he hne
      | followed _ hl' => exact absurd hl hl'
  | circular hf hl hne =>
      cases h₂ with
      | skipped hno => exact absurd hf hno
      | declared _ _ he => exact absurd he hne
      | circular _ _ _ => exact ⟨rfl, rfl⟩
      | followed _ hl' => exact absurd hl hl'
  | followed hf hl' =>
      cases h₂ with
      | skipped hno => exact absurd hf hno
      | declared _ hl _ => exact absurd hl hl'
      | circular _ hl _ => exact absurd hl hl'
      | followed _ _ => exact ⟨rfl, rfl⟩
  | recorded =>
      cases h₂
      exact ⟨rfl, rfl⟩
  | left =>
      cases h₂
      exact ⟨rfl, rfl⟩

theorem Step.unique : Relator.RightUnique (Step view s) := by
  rintro c c₁ c₂ ⟨h₁⟩ ⟨h₂⟩
  obtain ⟨rfl, rfl⟩ := h₁.unique h₂
  rfl

theorem Halts.not_step {c c' : Stage} {e : Halted Discovery} (h : Halts view s c e) :
    ¬ Step view s c c' := by
  rintro ⟨hj⟩
  cases h with
  | unreadable hnew hfetch =>
      cases hj with
      | known hv => exact hnew hv
      | opened _ hfetch' _ =>
          rw [hfetch] at hfetch'
          cases hfetch'
  | malformed hnew hfetch hms =>
      cases hj with
      | known hv => exact hnew hv
      | opened _ hfetch' hms' =>
          rw [hfetch] at hfetch'
          cases hfetch'
          rw [hms] at hms'
          cases hms'

theorem Halts.unique {c : Stage} {e e' : Halted Discovery} (h : Halts view s c e)
    (h' : Halts view s c e') : e = e' := by
  cases h with
  | unreadable hnew hfetch =>
      cases h' with
      | unreadable _ hfetch' => exact Except.error.inj (hfetch.symm.trans hfetch')
      | malformed _ hfetch' _ =>
          rw [hfetch] at hfetch'
          cases hfetch'
  | malformed hnew hfetch hms =>
      cases h' with
      | unreadable _ hfetch' =>
          rw [hfetch] at hfetch'
          cases hfetch'
      | malformed _ hfetch' hms' =>
          rw [hfetch] at hfetch'
          cases hfetch'
          rw [hms] at hms'
          cases hms'
          rfl

theorem not_step_nil {d : Discovery} {c : Stage} : ¬ Step view s ⟨[], d⟩ c := by
  rintro ⟨⟩

/-- Where no step leads on, all ways end. -/
theorem eq_of_steps {c c₁ c₂ : Stage} (h₁ : Steps view s c c₁) (h₂ : Steps view s c c₂)
    (hend₁ : ∀ c', ¬ Step view s c₁ c') (hend₂ : ∀ c', ¬ Step view s c₂ c') : c₁ = c₂ := by
  rcases ReflTransGen.total_of_right_unique Step.unique h₁ h₂ with h | h
  · rcases ReflTransGen.cases_head h with he | ⟨c', hstep, -⟩
    · exact he
    · exact absurd hstep (hend₁ c')
  · rcases ReflTransGen.cases_head h with he | ⟨c', hstep, -⟩
    · exact he.symm
    · exact absurd hstep (hend₂ c')

theorem Leads.unique {c : Stage} {r r' : Except (Halted Discovery) Discovery}
    (h : Leads view s c [] r) (h' : Leads view s c [] r') : r = r' := by
  cases r with
  | ok d =>
      cases r' with
      | ok d' =>
          have he := eq_of_steps h h' (fun _ => not_step_nil) fun _ => not_step_nil
          cases he
          rfl
      | error e' =>
          obtain ⟨c', hc, hh⟩ := h'
          have he := eq_of_steps h hc (fun _ => not_step_nil) fun _ => hh.not_step
          rw [← he] at hh
          cases hh
  | error e =>
      obtain ⟨c₁, hc₁, hh₁⟩ := h
      cases r' with
      | ok d' =>
          have he := eq_of_steps hc₁ h' (fun _ => hh₁.not_step) fun _ => not_step_nil
          rw [he] at hh₁
          cases hh₁
      | error e' =>
          obtain ⟨c₂, hc₂, hh₂⟩ := h'
          have he := eq_of_steps hc₁ hc₂ (fun _ => hh₁.not_step) fun _ => hh₂.not_step
          rw [← he] at hh₂
          rw [hh₁.unique hh₂]

theorem find_congr {path : String} (h : SameAt view view' path) (sources : Assoc String)
    (c : FileCache) :
    SourceText.find view' sources path c = SourceText.find view sources path c := by
  unfold SourceText.find
  rw [h.isFile]
  by_cases hf : view.isFile path = true
  · simp only [hf, if_true, FileCache.read, h.read hf, h.modified hf]
  · simp only [hf]
    rfl

theorem fetch_congr {path : String} (h : SameAt view view' path) (referrer : Option String)
    (d : Discovery) : fetch view' s path referrer d = fetch view s path referrer d := by
  unfold fetch
  rw [find_congr h]

theorem Step.congr {c c' : Stage} (hsound : Sound view s es c)
    (hsame : ∀ p, Reachable view s es p → SameAt view view' p) (hs : Step view s c c') :
    Step view' s c c' := by
  obtain ⟨hj⟩ := hs
  refine .job ?_
  cases hj with
  | known hv => exact .known hv
  | arity => exact .arity
  | skipped hno => exact .skipped hno
  | declared hf hl he => exact .declared hf hl he
  | circular hf hl hne => exact .circular hf hl hne
  | followed hf hl => exact .followed hf hl
  | recorded => exact .recorded
  | left => exact .left
  | opened hnew hfetch hms =>
      have hat := hsame _ (hsound.jobs _ List.mem_cons_self)
      exact .opened hnew ((fetch_congr hat ..).trans hfetch) hms

theorem Halts.congr {c : Stage} {e : Halted Discovery} (hsound : Sound view s es c)
    (hsame : ∀ p, Reachable view s es p → SameAt view view' p) (h : Halts view s c e) :
    Halts view' s c e := by
  cases h with
  | unreadable hnew hfetch =>
      have hat := hsame _ (hsound.jobs _ List.mem_cons_self)
      exact .unreadable hnew ((fetch_congr hat ..).trans hfetch)
  | malformed hnew hfetch hms =>
      have hat := hsame _ (hsound.jobs _ List.mem_cons_self)
      exact .malformed hnew ((fetch_congr hat ..).trans hfetch) hms

theorem Steps.congr (hes : ∀ e ∈ es, IsNormal e) {log : List Message}
    (hsame : ∀ p, Reachable view s es p → SameAt view view' p) {c : Stage}
    (hs : Steps view s (opening es .empty log) c) :
    Steps view' s (opening es .empty log) c := by
  induction hs with
  | refl => exact .refl
  | tail hc hstep ih => exact ih.tail (hstep.congr (explores_of_steps hes hc).sound hsame)

theorem Leads.congr (hes : ∀ e ∈ es, IsNormal e) {log : List Message}
    (hsame : ∀ p, Reachable view s es p → SameAt view view' p)
    {r : Except (Halted Discovery) Discovery}
    (h : Leads view s (opening es .empty log) [] r) :
    Leads view' s (opening es .empty log) [] r := by
  cases r with
  | ok d => exact Steps.congr hes hsame h
  | error e =>
      obtain ⟨c, hc, hh⟩ := h
      exact ⟨c, Steps.congr hes hsame hc, hh.congr (explores_of_steps hes hc).sound hsame⟩

theorem expand_of_entriesOf (view : FileView) (input : String) (d : Discovery) :
    expand view d input = match entriesOf view input with
      | .ok [] => .ok ([], d.say .debug ("Pattern " ++ input ++ " matched no files"))
      | .ok es => .ok (es, d)
      | .error f => .error ⟨.of f, d⟩ := by
  unfold expand entriesOf
  split
  · dsimp only
    cases view.walk (Path.Glob.staticBase input) with
    | error e => rfl
    | ok files =>
        dsimp only
        cases matching input files <;> rfl
  · rfl

theorem expandAll_congr {inputs : List String}
    (h : ∀ input ∈ inputs, entriesOf view' input = entriesOf view input) (d : Discovery) :
    expandAll view' inputs d = expandAll view inputs d := by
  induction inputs generalizing d with
  | nil => rfl
  | cons input inputs ih =>
      have hfirst : expand view' d input = expand view d input := by
        rw [expand_of_entriesOf, expand_of_entriesOf, h input List.mem_cons_self]
      have hrest := fun d => ih (fun i hi => h i (List.mem_cons_of_mem _ hi)) d
      simp only [expandAll, hfirst, hrest]

theorem SameInputs.refl (s : Settings) (view : FileView) : SameInputs s view view :=
  ⟨fun _ _ => rfl, fun _ _ _ _ => ⟨.refl _ _, fun _ => rfl⟩⟩

/-- The files that the entries reach are those that a discovery has visited. -/
theorem sameInputs_of_visited {o : Options} {current : String} {d : Discovery}
    (hs : o.settings current = .ok s) (hrun : run view s .empty = .ok d)
    (hexpanded : ∀ input ∈ s.input, entriesOf view' input = entriesOf view input)
    (hvisited : ∀ p ∈ d.visited, SameAt view view' p) : SameInputs s view view' := by
  refine ⟨hexpanded, fun es he p hp => hvisited p ?_⟩
  have hexact := isExact_of_run (fun _ => isNormal_of_mem_entries hs he) he hrun
  exact (hexact.mem_visited p).mpr hp

theorem run_congr {o : Options} {current : String} (hs : o.settings current = .ok s)
    (h : SameInputs s view view') : run view' s .empty = run view s .empty := by
  obtain ⟨log, he⟩ := expandAll_eq view s.input (start .empty)
  unfold run
  rw [expandAll_congr h.expanded, he]
  cases hm : s.input.mapM (entriesOf view) with
  | error f => rfl
  | ok ess =>
      have hentries : entries view s = .ok ess.flatten := by
        unfold entries
        rw [hm]
        rfl
      have hes : ∀ e ∈ ess.flatten, IsNormal e := fun _ => isNormal_of_mem_entries hs hentries
      have hl := fun view => leads_entries view s (fun _ h => h.length_loading_lt) (Nat.le_refl _)
        ess.flatten [] { start .empty with log }
        (by simpa [opening] using nested_opening view s ess.flatten .empty log)
      simp only [List.append_nil] at hl
      have hsame := Leads.unique (hl view')
        (Leads.congr hes (h.files _ hentries) (hl view))
      exact congrArg (fun r => r >>= fun d : Discovery =>
        if d.modules.isEmpty then d.halt .nothingDiscovered else return d) hsame

end

end DefineBundle.Discovery
