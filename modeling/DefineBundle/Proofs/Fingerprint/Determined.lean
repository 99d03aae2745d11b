import DefineBundle.Bundle.Generate
import DefineBundle.Proofs.Discovery.Rearrangement
import DefineBundle.Proofs.Fingerprint.Preimage

/-!
# What a fingerprint determines

Ids, dependencies and the order of dependencies are not covered by a fingerprint, but they are
part of texts, and a text is determined by its path and its time of change. So are all modules of a
file, and the covered lines say how the modules of all files follow one another.

This rests on the lines being told apart. Paths on disk hold no NUL, but those of inline sources
can, and then the lines of two different discoveries can be one text.
-/
namespace DefineBundle

/-- The time of a change tells which text a path leads to in one view and the other. No file was
changed at time zero, which is the time of the virtual ones. -/
structure FileView.Timed (view view' : FileView) (path : String) : Prop where
  text : view.isFile path = true → view'.isFile path = true →
    ∀ n, view.modified path = .ok n → view'.modified path = .ok n →
      view'.read path = view.read path
  modified_ne : view.isFile path = true → view.modified path ≠ .ok 0
  modified_ne' : view'.isFile path = true → view'.modified path ≠ .ok 0

namespace SourceText

variable {view view' : FileView} {sources : Assoc String} {path : String} {t t' : SourceText}

theorem eq_of_modified_eq (htimed : view.Timed view' path)
    (ht : at? view sources path = .ok (some t)) (ht' : at? view' sources path = .ok (some t'))
    (h : t.modified = t'.modified) : t = t' := by
  obtain ⟨text, isVirtual, n⟩ := t
  obtain ⟨text', isVirtual', n'⟩ := t'
  obtain rfl : n = n' := h
  rcases at?_eq_ok_some ht with ⟨hf, hr, hm, hv⟩ | ⟨hf, hg, hm, hv⟩
  · rcases at?_eq_ok_some ht' with ⟨hf', hr', hm', hv'⟩ | ⟨-, -, hm', -⟩
    · have htext := htimed.text hf hf' n hm hm'
      rw [hr, hr'] at htext
      obtain rfl : text' = text := Except.ok.inj htext
      obtain rfl : isVirtual = isVirtual' := hv.trans hv'.symm
      rfl
    · obtain rfl : n = 0 := hm'
      exact absurd hm (htimed.modified_ne hf)
  · rcases at?_eq_ok_some ht' with ⟨hf', -, hm', -⟩ | ⟨-, hg', -, hv'⟩
    · obtain rfl : n = 0 := hm
      exact absurd hm' (htimed.modified_ne' hf')
    · obtain rfl : text = text' := Option.some.inj (hg.symm.trans hg')
      obtain rfl : isVirtual = isVirtual' := hv.trans hv'.symm
      rfl

end SourceText

namespace Discovery

open DefineBundle.Fingerprint (preimage stamp)

/-- What a build in the root directory finds with some files on disk. -/
def diskRun (files : Listing) (o : Options) : Option (Settings × Discovery) :=
  match o.settings "/" with
  | .error _ => none
  | .ok s => match run (Listing.view files) s .empty with
    | .error _ => none
    | .ok d => some (s, d)

theorem of_diskRun {files : Listing} {o : Options} {s : Settings} {d : Discovery}
    (h : diskRun files o = some (s, d)) :
    o.settings "/" = .ok s ∧ run (Listing.view files) s .empty = .ok d := by
  unfold diskRun at h
  split at h
  · cases h
  · rename_i s' hs
    split at h
    · cases h
    · rename_i d' hd
      cases h
      exact ⟨hs, hd⟩

/-- A path that holds the end of the line of a virtual module: its own line is those of two. -/
def glued (p q : String) : String :=
  p ++ "\x000\n" ++ q

/-- A path whose line is those of four modules. -/
def gluedAll : String :=
  glued (glued "/q.js" "/u.js") (glued "/p.js" "/q.js")

/-- Modules whose paths hold the lines of one another. -/
def gluedOptions : Options :=
  { inlineOptions ["p.js", gluedAll, "q.js"]
      [("p.js", "define('p', ['p1'], () => 0)"), ("q.js", "define('q', ['q1'], () => 0)"),
        (glued "/q.js" "/u.js", "define('p1', [], () => 0)"),
        (glued "/u.js" "/p.js", "define('q1', [], () => 0)"),
        (gluedAll, "define('w', [], () => 0)")] with
    moduleOverrides := some (Assoc.ofList
      [("p1", glued "/q.js" "/u.js"), ("q1", glued "/u.js" "/p.js")]) }

def emptyScript (path : String) : Listing :=
  (∅ : Listing).insert path ⟨some "0;", 1⟩

theorem isFile_emptyScript (p path : String) :
    (Listing.view (emptyScript p)).isFile path = true ↔ path = p := by
  by_cases h : path = p
  · simp [Listing.view, emptyScript, Assoc.contains, Assoc.get?_insert, h]
  · simp [Listing.view, emptyScript, Assoc.contains, Assoc.get?_insert, h]

theorem modified_emptyScript (p : String) :
    (Listing.view (emptyScript p)).modified p = .ok 1 := by
  simp [Listing.view, Listing.modified, emptyScript, Assoc.get?_insert]

theorem timed_emptyScript {p q : String} (hne : p ≠ q) (path : String) :
    (Listing.view (emptyScript p)).Timed (Listing.view (emptyScript q)) path where
  text hf hf' := by
    rw [isFile_emptyScript] at hf hf'
    exact absurd (hf.symm.trans hf') hne
  modified_ne hf := by
    obtain rfl := (isFile_emptyScript p path).mp hf
    simp [modified_emptyScript]
  modified_ne' hf := by
    obtain rfl := (isFile_emptyScript q path).mp hf
    simp [modified_emptyScript]

/-- Lists with the same keys in the same order, and the same elements of every key, are equal. -/
theorem eq_of_filter_eq {α β : Type} [DecidableEq β] {key : α → β} {xs ys : List α}
    (hkeys : xs.map key = ys.map key)
    (hfilter : ∀ k, xs.filter (fun x => decide (key x = k)) =
      ys.filter (fun y => decide (key y = k))) : xs = ys := by
  induction xs generalizing ys with
  | nil => exact (List.map_eq_nil_iff.mp hkeys.symm).symm
  | cons x xs ih =>
      cases ys with
      | nil => cases hkeys
      | cons y ys =>
          rw [List.map_cons, List.map_cons, List.cons.injEq] at hkeys
          obtain ⟨hkey, hkeys⟩ := hkeys
          have hhead := hfilter (key x)
          rw [List.filter_cons_of_pos (by simp), List.filter_cons_of_pos (by simp [hkey])] at hhead
          obtain rfl : x = y := (List.cons.inj hhead).1
          refine congrArg (x :: ·) (ih hkeys fun k => ?_)
          have hk := hfilter k
          by_cases hx : key x = k
          · rw [List.filter_cons_of_pos (by simp [hx]), List.filter_cons_of_pos (by simp [hx])] at hk
            exact (List.cons.inj hk).2
          · rwa [List.filter_cons_of_neg (by simp [hx]), List.filter_cons_of_neg (by simp [hx])] at hk

section
variable {view view' : FileView} {s : Settings} {es es' : List String} {d d' : Discovery}

/-- The modules of a path that both discoveries visit, where what is covered of them agrees. -/
theorem IsExact.filter_eq_of_stamps {p : String} (hx : IsExact view s es d)
    (hx' : IsExact view' s es' d') (hp : p ∈ d.visited) (hp' : p ∈ d'.visited)
    (htimed : view.Timed view' p)
    (h : (d.modules.filter (·.path = p)).map stamp = (d'.modules.filter (·.path = p)).map stamp) :
    d.modules.filter (·.path = p) = d'.modules.filter (·.path = p) := by
  obtain ⟨t, ms, hholds, -, hrecords⟩ := hx.modules p hp
  obtain ⟨t', ms', hholds', -, hrecords'⟩ := hx'.modules p hp'
  rw [hrecords, hrecords'] at h ⊢
  cases ms with
  | nil =>
      cases ms' with
      | nil => rfl
      | cons m' ms' => cases h
  | cons m ms =>
      cases ms' with
      | nil => cases h
      | cons m' ms' =>
          have hmodified : t.modified = t'.modified := by
            rw [List.map_cons, List.map_cons, List.map_cons, List.map_cons, List.cons.injEq] at h
            exact congrArg Prod.snd h.1
          obtain rfl : t = t' :=
            SourceText.eq_of_modified_eq htimed hholds.1 hholds'.1 hmodified
          have hms := Except.ok.inj (hholds.2.symm.trans hholds'.2)
          rw [hms]

theorem IsExact.modules_eq_of_stamps (hx : IsExact view s es d) (hx' : IsExact view' s es' d')
    (htimed : ∀ p ∈ d.visited, p ∈ d'.visited → view.Timed view' p)
    (h : d.modules.map stamp = d'.modules.map stamp) : d.modules = d'.modules := by
  have hpaths : d.modules.map ModuleRecord.path = d'.modules.map ModuleRecord.path := by
    have hfst := congrArg (List.map Prod.fst) h
    rwa [List.map_map, List.map_map] at hfst
  refine eq_of_filter_eq hpaths fun p => ?_
  have hstamps : (d.modules.filter (·.path = p)).map stamp =
      (d'.modules.filter (·.path = p)).map stamp := by
    have hfiltered := congrArg (List.filter fun k => decide (k.1 = p)) h
    rwa [List.filter_map, List.filter_map] at hfiltered
  by_cases hp : p ∈ d.visited
  · by_cases hp' : p ∈ d'.visited
    · exact hx.filter_eq_of_stamps hx' hp hp' (htimed p hp hp') hstamps
    · have hnil := hx'.filter_eq_nil hp'
      rw [hnil, List.map_nil, List.map_eq_nil_iff] at hstamps
      rw [hstamps, hnil]
  · have hnil := hx.filter_eq_nil hp
    rw [hnil, List.map_nil, eq_comm, List.map_eq_nil_iff] at hstamps
    rw [hstamps, hnil]

/-- Where no path holds a NUL, the digested bytes determine the modules, and so everything that is
made of them. -/
theorem modules_eq_of_preimage_eq {o : Options} {current : String}
    (hs : o.settings current = .ok s) (hrun : run view s .empty = .ok d)
    (hrun' : run view' s .empty = .ok d') (htimed : ∀ p, view.Timed view' p)
    (hNul : ∀ m ∈ d.modules ++ d'.modules, '\x00' ∉ m.path.toList)
    (h : preimage d.modules s = preimage d'.modules s) :
    d.modules = d'.modules ∧
      ∀ tools, Bundle.generate ⟨tools, s, d.modules, Fingerprint.of d.modules s⟩ =
        Bundle.generate ⟨tools, s, d'.modules, Fingerprint.of d'.modules s⟩ := by
  obtain ⟨es, hx⟩ := exists_isExact hs hrun
  obtain ⟨es', hx'⟩ := exists_isExact hs hrun'
  have hstamps := Fingerprint.map_stamp_eq_of_preimage_eq hNul h
  have hmodules := hx.modules_eq_of_stamps hx' (fun p _ _ => htimed p) hstamps
  exact ⟨hmodules, fun tools => by rw [hmodules]⟩

end

/-- What is on disk elsewhere has no say. -/
theorem modules_eq_of_preimage_eq_elsewhere : ∃ s d d',
    run (Listing.view (emptyScript "/x.js")) s .empty = .ok d ∧
    run (Listing.view (emptyScript "/y.js")) s .empty = .ok d' ∧ d.modules = d'.modules ∧
    ∀ tools, Bundle.generate ⟨tools, s, d.modules, Fingerprint.of d.modules s⟩ =
      Bundle.generate ⟨tools, s, d'.modules, Fingerprint.of d'.modules s⟩ := by
  let o := inlineOptions ["a.js"] [("a.js", (requiring "a" "b").source),
    ("b.js", (requiring "b" "a").source)]
  have hfound : ∀ path ∈ ["/x.js", "/y.js"],
      (diskRun (emptyScript path) o).map (fun r => r.2.modules) =
        some [requiring "b" "a", requiring "a" "b"] := by
    decide +kernel
  obtain ⟨⟨s, d⟩, hx, hd⟩ := Option.map_eq_some_iff.mp (hfound "/x.js" (by simp))
  obtain ⟨⟨s', d'⟩, hy, hd'⟩ := Option.map_eq_some_iff.mp (hfound "/y.js" (by simp))
  dsimp only at hd hd'
  obtain ⟨hs, hrun⟩ := of_diskRun hx
  obtain ⟨hs', hrun'⟩ := of_diskRun hy
  obtain rfl : s = s' := Except.ok.inj (hs.symm.trans hs')
  have hNul : ∀ m ∈ d.modules ++ d'.modules, '\x00' ∉ m.path.toList := by
    rw [hd, hd']
    decide
  exact ⟨s, d, d', hrun, hrun', modules_eq_of_preimage_eq hs hrun hrun'
    (timed_emptyScript (by decide)) hNul (by rw [hd, hd'])⟩

/-- With NULs in paths, two discoveries of different modules have the same bytes digested. -/
theorem preimage_eq_of_glued : ∃ s d d', gluedOptions.settings "/" = .ok s ∧
    run (Listing.view (emptyScript "/q.js")) s .empty = .ok d ∧
    run (Listing.view (emptyScript "/p.js")) s .empty = .ok d' ∧
    (∀ path, (Listing.view (emptyScript "/q.js")).Timed (Listing.view (emptyScript "/p.js")) path) ∧
    preimage d.modules s = preimage d'.modules s ∧ d.modules ≠ d'.modules := by
  let lines := (glued gluedAll (glued (glued "/u.js" "/p.js") (glued "/q.js" ""))).toList
  have hfound : (diskRun (emptyScript "/q.js") gluedOptions).map
      (fun r => (r.2.modules.map (·.id), r.2.modules.flatMap Fingerprint.line)) =
        some (["p1", "p", "w"], lines) := by
    decide +kernel
  have hfound' : (diskRun (emptyScript "/p.js") gluedOptions).map
      (fun r => (r.2.modules.map (·.id), r.2.modules.flatMap Fingerprint.line)) =
        some (["w", "q1", "q"], lines) := by
    decide +kernel
  obtain ⟨⟨s, d⟩, hq, hd⟩ := Option.map_eq_some_iff.mp hfound
  obtain ⟨⟨s', d'⟩, hp, hd'⟩ := Option.map_eq_some_iff.mp hfound'
  simp only [Prod.mk.injEq] at hd hd'
  obtain ⟨hs, hrun⟩ := of_diskRun hq
  obtain ⟨hs', hrun'⟩ := of_diskRun hp
  obtain rfl : s = s' := Except.ok.inj (hs.symm.trans hs')
  refine ⟨s, d, d', hs, hrun, hrun', timed_emptyScript (by decide), ?_, fun he => ?_⟩
  · rw [Fingerprint.preimage_eq_iff_covered, Fingerprint.covered, Fingerprint.covered, hd.2, hd'.2]
  · have hids := hd.1
    rw [he, hd'.1] at hids
    exact absurd hids (by decide)

end Discovery

end DefineBundle
