import DefineBundle.Module.Exposure
import DefineBundle.Proofs.Layout.Owners
import Mathlib.Data.List.Nodup

/-!
# Libraries in any order

An id lies under every name that it is or that ends in front of one of its separators. All these
names are starts of one text, so no two of them are equally long, and the library with the longest
of them is the owner of the id wherever it stands among the others. What is taken from the owner,
the path of the module, whether it is loaded and how it is published, follows the order as little.
-/
namespace DefineBundle.Layout

/-- An id lies under itself and under each start of it that a separator follows. -/
def LiesUnder (name id : String) : Prop :=
  id = name ∨ ∃ c rest, (c = '.' ∨ c = '/') ∧ id.toList = name.toList ++ c :: rest

/-- The library that an id lies under with the longest name: any other such library has a shorter
one. -/
structure IsOwner (libraries : List (String × Library)) (id : String) (e : String × Library) :
    Prop where
  mem : e ∈ libraries
  above : LiesUnder e.1 id
  longest : ∀ e' ∈ libraries, LiesUnder e'.1 id → e' ≠ e → e'.1.length < e.1.length

theorem liesUnder_iff {name id : String} : LiesUnder name id ↔ isWithin name id = true := by
  rw [isWithin_iff]
  constructor
  · rintro (rfl | ⟨c, rest, hc, hid⟩)
    · exact ⟨[], by simp, by simp⟩
    · refine ⟨c :: rest, hid, fun c' hc' => ?_⟩
      obtain rfl : c = c' := Option.some.inj hc'
      simpa [isSeparator] using hc
  · rintro ⟨rest, hid, hrest⟩
    cases rest with
    | nil => exact .inl (String.toList_injective (by simpa using hid))
    | cons c rest => exact .inr ⟨c, rest, by simpa [isSeparator] using hrest c rfl, hid⟩

theorem eq_of_length_eq {name name' id : String} (h : isWithin name id = true)
    (h' : isWithin name' id = true) (hlength : name.length = name'.length) : name = name' := by
  obtain ⟨rest, hid, -⟩ := isWithin_iff.mp h
  obtain ⟨rest', hid', -⟩ := isWithin_iff.mp h'
  rw [← String.length_toList, ← String.length_toList] at hlength
  exact String.toList_injective (List.append_inj_left (hid.symm.trans hid') hlength)

theorem libraryFor?_eq_some_iff {l : Layout} {id : String} {e : String × Library} :
    l.libraryFor? id = some e ↔ IsOwner l.libraries.entries id e := by
  constructor
  · intro h
    obtain ⟨hmem, hwithin, hlongest⟩ := libraryFor?_spec h
    refine ⟨hmem, liesUnder_iff.mpr hwithin, fun e' he' hunder hne => ?_⟩
    rw [liesUnder_iff] at hunder
    refine Nat.lt_of_le_of_ne (hlongest e' he' hunder) fun hlength => hne ?_
    -- a name that is as long is the same name, and no name comes twice
    exact List.inj_on_of_nodup_map l.libraries.nodup he' hmem
      (eq_of_length_eq hunder hwithin hlength)
  · intro h
    have hwithin := liesUnder_iff.mp h.above
    obtain ⟨owner, howner⟩ := exists_libraryFor? h.mem hwithin
    obtain ⟨hmem, hunder, hlongest⟩ := libraryFor?_spec howner
    have hle := hlongest e h.mem hwithin
    by_cases heq : owner = e
    · rw [howner, heq]
    · have hlt := h.longest owner hmem (liesUnder_iff.mpr hunder) heq
      omega

theorem libraryFor?_eq_none_iff {l : Layout} {id : String} :
    l.libraryFor? id = none ↔ ∀ e ∈ l.libraries.entries, ¬ LiesUnder e.1 id := by
  constructor
  · intro h e he hunder
    obtain ⟨owner, howner⟩ := exists_libraryFor? he (liesUnder_iff.mp hunder)
    rw [h] at howner
    cases howner
  · intro h
    cases howner : l.libraryFor? id with
    | none => rfl
    | some e =>
        have hown := libraryFor?_eq_some_iff.mp howner
        exact absurd hown.above (h e hown.mem)

theorem IsOwner.perm {libraries libraries' : List (String × Library)} {id : String}
    {e : String × Library} (h : IsOwner libraries id e) (hperm : libraries.Perm libraries') :
    IsOwner libraries' id e :=
  ⟨hperm.mem_iff.mp h.mem, h.above, fun e' he' => h.longest e' (hperm.mem_iff.mpr he')⟩

theorem libraryFor?_eq_of_perm {l l' : Layout} (h : l.libraries.entries.Perm l'.libraries.entries)
    (id : String) : l.libraryFor? id = l'.libraryFor? id := by
  refine Option.ext fun e => ?_
  rw [libraryFor?_eq_some_iff, libraryFor?_eq_some_iff]
  exact ⟨fun he => he.perm h, fun he => he.perm h.symm⟩

end DefineBundle.Layout

namespace DefineBundle.Settings

open Layout (LiesUnder IsOwner)

/-- The owner of an id is the one library with the longest name that the id lies under, if there is
any. So the libraries may be listed in any order: every id has the same owner, the same path, is
loaded alike and published alike. -/
theorem ownership_of_perm {s : Settings} {libraries : Assoc Library}
    (h : libraries.entries.Perm s.libraries.entries) (id : String) :
    (∀ e, s.libraryFor? id = some e ↔ IsOwner s.libraries.entries id e) ∧
      (s.libraryFor? id = none ↔ ∀ e ∈ s.libraries.entries, ¬ LiesUnder e.1 id) ∧
      ({ s with libraries } : Settings).libraryFor? id = s.libraryFor? id ∧
      ({ s with libraries } : Settings).pathOf id = s.pathOf id ∧
      ({ s with libraries } : Settings).includes id = s.includes id ∧
      ({ s with libraries } : Settings).exposeFor id = s.exposeFor id := by
  have howner : ({ s with libraries } : Settings).libraryFor? id = s.libraryFor? id :=
    Layout.libraryFor?_eq_of_perm h id
  refine ⟨fun e => Layout.libraryFor?_eq_some_iff, Layout.libraryFor?_eq_none_iff, howner, ?_, ?_,
    ?_⟩
  · simp only [Layout.pathOf, Layout.namespaceFor, Layout.baseFor, howner]
  · simp only [Layout.includes, howner]
  · simp only [exposeFor, howner]

/-- A build with a library inside another one. -/
def nestedSettings : Settings where
  baseDirectory := "/p/src"
  rootNamespace := some "app"
  libraries := ⟨[("ephox", ⟨"/p/lib/ephox", none, .never⟩),
    ("ephox.katamari", ⟨"/p/lib/katamari", some "ephox.katamari", .always⟩)], by decide⟩
  overrides := ∅
  input := []
  workingDirectory := "/p"
  inlineSources := ∅
  compression := none
  compressModuleIds := true
  expose := .unlessPrivate
  version := none
  releaseDate := none
  globalModules := ∅
  outputs := .empty
  force := false
  hash := true
  isLegible := true

/-- The same libraries with the inner one in front. -/
def innerFirst : Assoc Library :=
  ⟨nestedSettings.libraries.entries.reverse, by decide⟩

/-- The inner library owns its modules from the front as well. -/
theorem ownership_of_perm_nested :
    innerFirst.entries.Perm nestedSettings.libraries.entries ∧
      ({ nestedSettings with libraries := innerFirst } : Settings).libraryFor?
        "ephox.katamari.api.Arr" =
          some ("ephox.katamari", ⟨"/p/lib/katamari", some "ephox.katamari", .always⟩) ∧
      ({ nestedSettings with libraries := innerFirst } : Settings).pathOf "ephox.katamari.api.Arr" =
        "/p/lib/katamari/api/Arr.js" ∧
      ({ nestedSettings with libraries := innerFirst } : Settings).exposeFor
        "ephox.katamari.api.Arr" = .always := by
  have hperm : innerFirst.entries.Perm nestedSettings.libraries.entries := List.reverse_perm _
  obtain ⟨-, -, howner, hpath, -, hexpose⟩ := ownership_of_perm hperm "ephox.katamari.api.Arr"
  refine ⟨hperm, howner.trans ?_, hpath.trans ?_, hexpose.trans ?_⟩
  · decide
  · decide
  · decide

end DefineBundle.Settings
