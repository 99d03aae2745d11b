import DefineBundle.Proofs.Discovery.Reachability
import DefineBundle.Proofs.Lists.Traversals

/-!
# Builds in another order

The order in which a build names its entries, and modules their dependencies, has a say in the order
of what is found and in nothing else: what is visited is what is reached, and reaching a path does
not depend on an order.
-/
namespace DefineBundle.Discovery

open DefineBundle.Script (Declaration)
open DefineBundle.Path (IsNormal)
open Relation (ReflTransGen)

/-- Two files that declare the same modules, up to the order of the dependencies. -/
structure SameFile (f f' : Origin × List Declaration) : Prop where
  isVirtual : f.1.isVirtual = f'.1.isVirtual
  modified : f.1.modified = f'.1.modified
  declarations : List.Forall₂ (fun m m' => m.id = m'.id ∧ m.deps.Perm m'.deps) f.2 f'.2

/-- Two builds with the same entries and the same files, up to the order of entries and of
dependencies. -/
structure Reordered (view : FileView) (s : Settings) (es : List String) (view' : FileView)
    (s' : Settings) (es' : List String) : Prop where
  entries : ∀ e, e ∈ es ↔ e ∈ es'
  layout : s.toLayout = s'.toLayout
  files : ∀ p, Option.Rel SameFile (fileAt? view s p) (fileAt? view' s' p)

/-- What of a record does not depend on an order. -/
def key (m : ModuleRecord) : String × String × Bool × Nat :=
  (m.path, m.id, m.isVirtual, m.modified)

section
variable {view view' : FileView} {s s' : Settings} {es es' : List String} {p q : String}

theorem SameFile.symm {f f' : Origin × List Declaration} (h : SameFile f f') : SameFile f' f :=
  ⟨h.isVirtual.symm, h.modified.symm,
    (h.declarations.imp fun _ _ hm => ⟨hm.1.symm, hm.2.symm⟩).flip⟩

theorem Reordered.file (h : Reordered view s es view' s' es') {f : Origin × List Declaration}
    (hf : fileAt? view s p = some f) : ∃ f', fileAt? view' s' p = some f' ∧ SameFile f f' := by
  have hrel := h.files p
  rw [hf] at hrel
  cases hf' : fileAt? view' s' p with
  | none =>
      rw [hf'] at hrel
      cases hrel
  | some f' =>
      rw [hf'] at hrel
      cases hrel with
      | some hsame => exact ⟨f', rfl, hsame⟩

theorem Reordered.symm (h : Reordered view s es view' s' es') :
    Reordered view' s' es' view s es := by
  refine ⟨fun e => (h.entries e).symm, h.layout.symm, fun p => ?_⟩
  cases hf : fileAt? view s p with
  | some f =>
      obtain ⟨f', hf', hsame⟩ := h.file hf
      rw [hf']
      exact .some hsame.symm
  | none =>
      have hrel := h.files p
      rw [hf] at hrel
      cases hf' : fileAt? view' s' p with
      | none => exact .none
      | some f' =>
          rw [hf'] at hrel
          cases hrel

theorem Reordered.holds (h : Reordered view s es view' s' es') {t : SourceText}
    {ms : List Declaration} (hh : Holds view s p t ms) :
    ∃ t' ms', Holds view' s' p t' ms' ∧ t.isVirtual = t'.isVirtual ∧ t.modified = t'.modified ∧
      List.Forall₂ (fun m m' => m.id = m'.id ∧ m.deps.Perm m'.deps) ms ms' := by
  obtain ⟨⟨o, ms'⟩, hf, hsame⟩ := h.file hh.fileAt?
  obtain ⟨t', rfl, hh'⟩ := fileAt?_eq_some_iff.mp hf
  exact ⟨t', ms', hh', hsame.isVirtual, hsame.modified, hsame.declarations⟩

theorem Reordered.edge (h : Reordered view s es view' s' es') (he : Edge view s p q) :
    Edge view' s' p q := by
  obtain ⟨o, ms, hfile, m, hm, dep, hdep, hf, rfl⟩ := he
  obtain ⟨⟨o', ms'⟩, hfile', hsame⟩ := h.file hfile
  obtain ⟨m', hm', hid, hperm⟩ := exists_of_forall₂ hsame.declarations hm
  refine ⟨o', ms', hfile', m', hm', dep, hperm.mem_iff.mp hdep, ⟨hid ▸ hf.1, ?_⟩, ?_⟩
  · rw [← h.layout]
    exact hf.2
  · rw [h.layout]

theorem Reordered.reachable (h : Reordered view s es view' s' es') (hp : Reachable view s es p) :
    Reachable view' s' es' p := by
  obtain ⟨e, he, hpath⟩ := hp
  exact ⟨e, (h.entries e).mp he, ReflTransGen.mono (fun _ _ hedge => h.edge hedge) _ _ hpath⟩

theorem Reordered.succeeds (h : Reordered view s es view' s' es')
    (hok : (∀ p, Reachable view s es p → ∃ t ms, Holds view s p t ms) ∧
      ∃ p t m ms, Reachable view s es p ∧ Holds view s p t (m :: ms)) :
    (∀ p, Reachable view' s' es' p → ∃ t ms, Holds view' s' p t ms) ∧
      ∃ p t m ms, Reachable view' s' es' p ∧ Holds view' s' p t (m :: ms) := by
  obtain ⟨hall, p, t, m, ms, hp, hh⟩ := hok
  refine ⟨fun q hq => ?_, ?_⟩
  · obtain ⟨t, ms, hh⟩ := hall q (h.symm.reachable hq)
    obtain ⟨t', ms', hh', -⟩ := h.holds hh
    exact ⟨t', ms', hh'⟩
  · obtain ⟨t', ms', hh', -, -, hms⟩ := h.holds hh
    cases hms with
    | cons _ _ => exact ⟨p, t', _, _, h.reachable hp, hh'⟩

theorem count_map_key (k : String × String × Bool × Nat) (ms : List ModuleRecord) :
    (ms.map key).count k = ((ms.filter (·.path = k.1)).map key).count k := by
  induction ms with
  | nil => rfl
  | cons m ms ih =>
      by_cases hp : m.path = k.1
      · simp [hp, List.count_cons, ih]
      · have hne : key m ≠ k := fun he => hp (by rw [← he]; rfl)
        simp [hp, hne, ih]

theorem IsExact.filter_eq_nil {d : Discovery} (hx : IsExact view s es d) (hp : p ∉ d.visited) :
    d.modules.filter (·.path = p) = [] := by
  refine List.filter_eq_nil_iff.mpr fun m hm he => ?_
  exact hp (of_decide_eq_true he ▸ hx.path_mem m hm)

theorem Reordered.latest_le (h : Reordered view s es view' s' es') {d d' : Discovery}
    (hx : IsExact view s es d) (hx' : IsExact view' s' es' d') : d.latest ≤ d'.latest := by
  obtain ⟨p, hp, t, ms, hh, hmod⟩ := hx.latest
  obtain ⟨t', ms', hh', -, hmod', -⟩ := h.holds hh
  have hp' := (hx'.mem_visited p).mpr (h.reachable ((hx.mem_visited p).mp hp))
  obtain ⟨t'', ms'', hh'', hle, -⟩ := hx'.modules p hp'
  obtain ⟨rfl, -⟩ := hh'.unique hh''
  omega

theorem Reordered.filter_key (h : Reordered view s es view' s' es') {d d' : Discovery}
    (hx : IsExact view s es d) (hx' : IsExact view' s' es' d') (p : String) :
    (d.modules.filter (·.path = p)).map key = (d'.modules.filter (·.path = p)).map key := by
  by_cases hp : p ∈ d.visited
  · obtain ⟨t, ms, hh, -, hrec⟩ := hx.modules p hp
    have hp' := (hx'.mem_visited p).mpr (h.reachable ((hx.mem_visited p).mp hp))
    obtain ⟨t', ms', hh', -, hrec'⟩ := hx'.modules p hp'
    obtain ⟨t'', ms'', hh'', hv, hmod, hms⟩ := h.holds hh
    obtain ⟨rfl, rfl⟩ := hh'.unique hh''
    rw [hrec, hrec', List.map_map, List.map_map]
    refine map_eq_map_of_forall₂ hms fun m m' hm => ?_
    simp [key, hm.1, hv, hmod]
  · have hp' : p ∉ d'.visited := fun hv =>
      hp ((hx.mem_visited p).mpr (h.symm.reachable ((hx'.mem_visited p).mp hv)))
    rw [hx.filter_eq_nil hp, hx'.filter_eq_nil hp']

/-- The order of the entries and of the dependencies makes no difference to what is found. -/
theorem Reordered.perm (h : Reordered view s es view' s' es') {d d' : Discovery}
    (hx : IsExact view s es d) (hx' : IsExact view' s' es' d') :
    d.visited.Perm d'.visited ∧ (d.modules.map key).Perm (d'.modules.map key) ∧
      d.latest = d'.latest := by
  refine ⟨?_, ?_, ?_⟩
  · refine (List.perm_ext_iff_of_nodup hx.nodup hx'.nodup).mpr fun p => ?_
    rw [hx.mem_visited, hx'.mem_visited]
    exact ⟨h.reachable, h.symm.reachable⟩
  · refine List.perm_iff_count.mpr fun k => ?_
    rw [count_map_key, h.filter_key hx hx', ← count_map_key]
  · exact Nat.le_antisymm (h.latest_le hx hx') (h.symm.latest_le hx' hx)

end

/-- A discovery succeeds just when all that the entries reach is there and declares a module; then
it finds exactly that, whatever the order of the entries and of the dependencies. -/
theorem run_finds_reachable {o : Options} {current : String} {s : Settings}
    (hs : o.settings current = .ok s) (view : FileView) :
    ((∃ d, run view s .empty = .ok d) ↔
      ∃ es, entries view s = .ok es ∧
        (∀ p, Reachable view s es p → ∃ t ms, Holds view s p t ms) ∧
        ∃ p t m ms, Reachable view s es p ∧ Holds view s p t (m :: ms)) ∧
    (∀ es d, entries view s = .ok es → run view s .empty = .ok d → IsExact view s es d) ∧
    ∀ (o' : Options) current' s' view' es es', o'.settings current' = .ok s' →
      entries view s = .ok es → entries view' s' = .ok es' →
      Reordered view s es view' s' es' →
      ((∃ d, run view s .empty = .ok d) ↔ ∃ d, run view' s' .empty = .ok d) ∧
      ∀ d d', run view s .empty = .ok d → run view' s' .empty = .ok d' →
        d.visited.Perm d'.visited ∧ (d.modules.map key).Perm (d'.modules.map key) ∧
          d.latest = d'.latest := by
  refine ⟨⟨fun ⟨d, hd⟩ => ?_, fun ⟨es, he, hok⟩ => ?_⟩, fun es d he hd => ?_, ?_⟩
  · obtain ⟨es, log, he, -⟩ := steps_of_run hd
    exact ⟨es, he, (run_ok_iff (fun _ => isNormal_of_mem_entries hs he) he).mp ⟨d, hd⟩⟩
  · exact (run_ok_iff (fun _ => isNormal_of_mem_entries hs he) he).mpr hok
  · exact isExact_of_run (fun _ => isNormal_of_mem_entries hs he) he hd
  · intro o' current' s' view' es es' hs' he he' h
    have hes : ∀ e ∈ es, IsNormal e := fun _ => isNormal_of_mem_entries hs he
    have hes' : ∀ e ∈ es', IsNormal e := fun _ => isNormal_of_mem_entries hs' he'
    refine ⟨?_, fun d d' hd hd' => ?_⟩
    · rw [run_ok_iff hes he, run_ok_iff hes' he']
      exact ⟨h.succeeds, h.symm.succeeds⟩
    · exact h.perm (isExact_of_run hes he hd) (isExact_of_run hes' he' hd')

/-- A file that nothing asks for is not reached, and what is in it does not matter. -/
theorem run_finds_reachable_unasked : ∃ s d,
    (inlineOptions ["a.js"] [("a.js", (requiring "a" "b").source),
      ("b.js", (requiring "b" "a").source), ("c.js", "define(")]).settings "/" = .ok s ∧
    run (Listing.view ∅) s .empty = .ok d ∧ Reachable (Listing.view ∅) s ["/a.js"] "/b.js" ∧
      ¬ Reachable (Listing.view ∅) s ["/a.js"] "/c.js" := by
  have hfound : (inlineRun (inlineOptions ["a.js"] [("a.js", (requiring "a" "b").source),
      ("b.js", (requiring "b" "a").source), ("c.js", "define(")])).map
        (fun r => ((entries (Listing.view ∅) r.1).toOption, r.2.visited)) =
      some (some ["/a.js"], ["/a.js", "/b.js"]) := by
    decide +kernel
  obtain ⟨⟨s, d⟩, hrun, hsd⟩ := Option.map_eq_some_iff.mp hfound
  simp only [Prod.mk.injEq] at hsd
  obtain ⟨hentries, hvisited⟩ := hsd
  obtain ⟨hs, hd⟩ := of_inlineRun hrun
  have he : entries (Listing.view ∅) s = .ok ["/a.js"] := by
    cases hes : entries (Listing.view ∅) s with
    | error f =>
        rw [hes] at hentries
        cases hentries
    | ok es =>
        rw [hes] at hentries
        exact congrArg _ (Option.some.inj hentries)
  have hx := (run_finds_reachable hs (Listing.view ∅)).2.1 _ d he hd
  refine ⟨s, d, hs, hd, (hx.mem_visited _).mp (by simp [hvisited]), fun hc => ?_⟩
  have hmem := (hx.mem_visited _).mpr hc
  simp [hvisited] at hmem

end DefineBundle.Discovery
