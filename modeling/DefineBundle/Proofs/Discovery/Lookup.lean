import DefineBundle.Proofs.Discovery.Agenda
import DefineBundle.Proofs.Files.Caching
import DefineBundle.Proofs.Lists.Traversals
import DefineBundle.Proofs.Options.Settings
import DefineBundle.Proofs.Path.NormalForm

/-!
# What a path holds

The file that a path leads to, put without a cache. A discovery asks a cache, which may serve one
path what it has read for another with the same components; every path of a build is in normal form,
where such paths are equal, so the cache makes no difference.
-/
namespace DefineBundle

open DefineBundle.Path (IsNormal isNormal_normalize)

/-- A cache that holds nothing but what the files hold. -/
def FileCache.Mirrors (c : FileCache) (view : FileView) : Prop :=
  ∀ path text, IsNormal path → c.get? path = some text → view.read path = .ok text

theorem FileCache.mirrors_empty (view : FileView) : FileCache.empty.Mirrors view := by
  intro path text _ h
  simp [FileCache.get?, FileCache.empty] at h

theorem FileCache.read_empty (view : FileView) (path : String) :
    (FileCache.empty.read view path).1 = view.read path := by
  unfold FileCache.read
  cases view.read path <;> rfl

/-- Reading through such a cache is reading the files, and what is read goes on to mirror them. -/
theorem FileCache.Mirrors.read {c : FileCache} {view : FileView} {path : String}
    (h : c.Mirrors view) (hp : IsNormal path) :
    (c.read view path).1 = view.read path ∧ (c.read view path).2.Mirrors view := by
  rcases FileCache.read_cases view path c with ⟨text, hkept, hread⟩ |
    ⟨-, ⟨text, hnow, hread⟩ | ⟨e, hnow, hread⟩⟩
  · rw [hread]
    exact ⟨(h path text hp hkept).symm, h⟩
  · rw [hread]
    refine ⟨hnow.symm, fun q t hq ht => ?_⟩
    rw [FileCache.get?_eq_find?, FileCache.find?_append, Option.or_eq_some_iff] at ht
    rcases ht with ht | ⟨-, ht⟩
    · exact h q t hq ht
    · simp only [FileCache.find?, List.find?_singleton, beq_iff_eq] at ht
      split at ht
      · rename_i he
        obtain rfl : path = q := hp.eq_of_components_eq hq he
        obtain rfl : text = t := Option.some.inj ht
        exact hnow
      · cases ht
  · rw [hread]
    exact ⟨hnow.symm, h⟩

namespace SourceText

/-- The text behind a path as the files and the inline sources stand. -/
def at? (view : FileView) (sources : Assoc String) (path : String) :
    Except BuildFault (Option SourceText) :=
  (find view sources path .empty).1

/-- With a cache that mirrors the files the text is found as it stands. -/
theorem find_of_mirrors {view : FileView} {c : FileCache} {path : String} (h : c.Mirrors view)
    (hp : IsNormal path) (sources : Assoc String) :
    (find view sources path c).1 = at? view sources path ∧
      (find view sources path c).2.Mirrors view := by
  have hread := h.read hp
  have hempty := FileCache.read_empty view path
  unfold at? find
  split
  · cases hc : c.read view path with
    | mk r c' =>
        cases he : FileCache.empty.read view path with
        | mk r' e' =>
            rw [hc] at hread
            rw [he] at hempty
            obtain rfl : r = r' := hread.1.trans hempty.symm
            cases r with
            | error f => exact ⟨rfl, hread.2⟩
            | ok text => cases view.modified path <;> exact ⟨rfl, hread.2⟩
  · exact ⟨rfl, h⟩

section
variable {view : FileView} {sources : Assoc String} {path : String}

theorem at?_of_isFile (h : view.isFile path = true) (sources : Assoc String) :
    at? view sources path = match view.read path with
      | .error e => .error (.inaccessible path e)
      | .ok text => match view.modified path with
        | .error e => .error (.inaccessible path e)
        | .ok modified => .ok (some ⟨text, false, modified⟩) := by
  unfold at? find
  rw [if_pos h, ← FileCache.read_empty]
  cases FileCache.empty.read view path with
  | mk r cache =>
      cases r with
      | error e => rfl
      | ok text => cases view.modified path <;> rfl

theorem at?_of_not_isFile (h : view.isFile path = false) (sources : Assoc String) :
    at? view sources path = .ok ((sources.get? path).map fun text => ⟨text, true, 0⟩) := by
  unfold at? find
  rw [if_neg (by simp [h])]

/-- A text that is found is that of a file, or an inline one where there is no file. -/
theorem at?_eq_ok_some {t : SourceText} (h : at? view sources path = .ok (some t)) :
    view.isFile path = true ∧ view.read path = .ok t.text ∧ view.modified path = .ok t.modified ∧
        t.isVirtual = false ∨
      view.isFile path = false ∧ sources.get? path = some t.text ∧ t.modified = 0 ∧
        t.isVirtual = true := by
  cases hf : view.isFile path with
  | true =>
      rw [at?_of_isFile hf] at h
      split at h
      · cases h
      · rename_i text hr
        split at h
        · cases h
        · rename_i n hm
          cases h
          exact .inl ⟨rfl, hr, hm, rfl⟩
  | false =>
      rw [at?_of_not_isFile hf] at h
      obtain ⟨text, htext, rfl⟩ := Option.map_eq_some_iff.mp (Except.ok.inj h)
      exact .inr ⟨rfl, htext, rfl, rfl⟩

/-- Nothing is found where there is neither a file nor an inline source. -/
theorem of_at?_eq_none (h : at? view sources path = .ok none) :
    view.isFile path = false ∧ sources.contains path = false := by
  cases hf : view.isFile path with
  | true =>
      rw [at?_of_isFile hf] at h
      split at h
      · cases h
      · split at h <;> cases h
  | false =>
      rw [at?_of_not_isFile hf] at h
      have hnone : sources.get? path = none := by simpa using h
      exact ⟨rfl, by simp [Assoc.contains, hnone]⟩

theorem of_at?_eq_error {fault : BuildFault} (h : at? view sources path = .error fault) :
    ∃ cause, fault = .inaccessible path cause ∧ view.isFile path = true ∧
      (view.read path = .error cause ∨ view.modified path = .error cause) := by
  cases hf : view.isFile path with
  | true =>
      rw [at?_of_isFile hf] at h
      split at h
      · rename_i cause hr
        cases h
        exact ⟨cause, rfl, rfl, .inl hr⟩
      · split at h
        · rename_i cause hm
          cases h
          exact ⟨cause, rfl, rfl, .inr hm⟩
        · cases h
  | false =>
      rw [at?_of_not_isFile hf] at h
      cases h

end

end SourceText

namespace Discovery

open DefineBundle.Script (Declaration)

/-- The file at a path with the modules that it declares; none when it cannot be loaded or its
modules are not known. -/
def fileAt? (view : FileView) (s : Settings) (path : String) :
    Option (Origin × List Declaration) :=
  match SourceText.at? view s.inlineSources path with
  | .ok (some t) => match declarationsOf (originOf s path t).source with
    | .ok ms => some (originOf s path t, ms)
    | .error _ => none
  | _ => none

section
variable {view : FileView} {s : Settings} {path : String} {referrer : Option String}
  {d d' : Discovery} {t : SourceText}

theorem fileAt?_of_at? {ms : List Declaration}
    (ht : SourceText.at? view s.inlineSources path = .ok (some t))
    (hms : declarationsOf (originOf s path t).source = .ok ms) :
    fileAt? view s path = some (originOf s path t, ms) := by
  simp only [fileAt?, ht, hms]

theorem at?_of_fetch (hc : d.cache.Mirrors view) (hp : IsNormal path)
    (h : fetch view s path referrer d = .ok (t, d')) :
    SourceText.at? view s.inlineSources path = .ok (some t) ∧ d'.cache.Mirrors view := by
  obtain ⟨cache, hfind, rfl⟩ := fetch_eq_ok h
  have hm := SourceText.find_of_mirrors hc hp s.inlineSources
  rw [hfind] at hm
  exact ⟨hm.1.symm, hm.2⟩

theorem fileAt?_of_fetch_error {e : Halted Discovery} (hc : d.cache.Mirrors view)
    (hp : IsNormal path) (h : fetch view s path referrer d = .error e) :
    fileAt? view s path = none := by
  have hm := (SourceText.find_of_mirrors hc hp s.inlineSources).1
  unfold fetch at h
  unfold fileAt?
  rw [← hm]
  split at h
  · rename_i hfind
    rw [hfind]
  · rename_i hfind
    rw [hfind]
  · cases h

end

theorem isNormal_pathOf (s : Settings) (id : String) : IsNormal (s.pathOf id) := by
  unfold Layout.pathOf
  split <;> exact isNormal_normalize _

theorem isNormal_of_mem_entries {o : Options} {current : String} {s : Settings}
    {view : FileView} {es : List String} (hs : o.settings current = .ok s)
    (he : entries view s = .ok es) {e : String} (hmem : e ∈ es) : IsNormal e := by
  unfold entries at he
  cases hm : s.input.mapM (entriesOf view) with
  | error f =>
      rw [hm] at he
      cases he
  | ok ess =>
      rw [hm] at he
      cases he
      obtain ⟨found, hfound, hef⟩ := List.mem_flatten.mp hmem
      obtain ⟨input, hinput, hof⟩ := exists_of_mem_mapM hm hfound
      unfold entriesOf at hof
      split at hof
      · split at hof
        · cases hof
        · cases hof
          obtain ⟨hmatch, -⟩ := List.mem_filter.mp (List.mem_mergeSort.mp hef)
          obtain ⟨file, -, rfl⟩ := List.mem_map.mp hmatch
          exact isNormal_normalize file
      · cases hof
        rw [List.mem_singleton.mp hef]
        rw [(Options.settings_eq_ok hs).1] at hinput
        obtain ⟨pattern, -, rfl⟩ := List.mem_map.mp hinput
        exact isNormal_normalize _

end Discovery

end DefineBundle
