import DefineBundle.Options.Settings
import DefineBundle.Proofs.Json.ReadBack
import Mathlib.Logic.Function.Defs

/-!
# The text of settings

The text that settings leave in a fingerprint is that of a tree without numbers, and it holds
every field but the one that says whether a build is forced and the one that says whether all paths
are texts.
-/
namespace DefineBundle

open Function (Injective)

namespace Json

theorem IsPlain.ofStrings {depth : Nat} (h : depth < depthLimit) (ss : List String) :
    IsPlain depth (Json.ofStrings ss) := by
  refine .array h fun j hj => ?_
  obtain ⟨s, -, rfl⟩ := List.mem_map.mp hj
  exact .string s

theorem IsPlain.ofOption {depth : Nat} {α : Type} {write : α → Json}
    (h : ∀ a, IsPlain depth (write a)) (a? : Option α) :
    IsPlain depth (Json.ofOption write a?) := by
  cases a? with
  | none => exact .null
  | some a => exact h a

theorem IsPlain.ofAssoc {depth : Nat} {α : Type} {write : α → Json} (hDepth : depth < depthLimit)
    (h : ∀ a, IsPlain (depth + 1) (write a)) (m : Assoc α) :
    IsPlain depth (Json.ofAssoc write m) := by
  refine .object hDepth fun j hj => ?_
  obtain ⟨e, -, rfl⟩ := List.mem_map.mp hj
  exact h e.2

theorem string_injective : Injective string :=
  fun _ _ h => string.inj h

theorem ofStrings_injective : Injective ofStrings := by
  intro ss ss' h
  have hItems : ss.map string = ss'.map string := (array.inj h).1
  exact (List.map_inj_right fun _ _ => string.inj).mp hItems

theorem ofOption_injective {α : Type} {write : α → Json} (hWrite : Injective write)
    (hNull : ∀ a, write a ≠ null) : Injective (ofOption write) := by
  intro a? a'? h
  cases a? with
  | none =>
      cases a'? with
      | none => rfl
      | some a' => exact absurd h.symm (hNull a')
  | some a =>
      cases a'? with
      | none => exact absurd h (hNull a)
      | some a' => rw [hWrite h]

theorem ofAssoc_injective {α : Type} {write : α → Json} (hWrite : Injective write) :
    Injective (ofAssoc write) := by
  rintro ⟨es, hes⟩ ⟨es', hes'⟩ h
  have hMembers := (object.inj h).1
  have hEntries : es = es' := by
    refine (List.map_inj_right fun e e' he => ?_).mp hMembers
    rw [Prod.mk.injEq] at he
    exact Prod.ext he.1 (hWrite he.2)
  subst hEntries
  rfl

theorem ofOption_string_injective : Injective (ofOption string) :=
  ofOption_injective string_injective fun _ h => Json.noConfusion h

end Json

open Json (IsPlain)

theorem Expose.isPlain_toJson {depth : Nat} (h : depth < Json.depthLimit) (e : Expose) :
    IsPlain depth e.toJson := by
  cases e with
  | never => exact .bool _
  | always => exact .bool _
  | unlessPrivate => exact .string _
  | only ids => exact .ofStrings h ids

theorem Expose.toJson_injective : Injective Expose.toJson := by
  intro e e' h
  cases e <;> cases e'
  case only.only ids ids' => rw [Json.ofStrings_injective h]
  all_goals first | rfl | simp [toJson, Json.ofStrings] at h

theorem Compression.isPlain_toJson {depth : Nat} (h : depth < Json.depthLimit) (c : Compression) :
    IsPlain depth c.toJson := by
  refine .object h fun m hm => ?_
  simp only [List.mem_cons, List.not_mem_nil, or_false] at hm
  obtain rfl | rfl | rfl | rfl := hm
  all_goals exact .bool _

theorem Compression.toJson_injective : Injective Compression.toJson := by
  rintro ⟨mangle, deadCode, dropConsole, dropDebugger⟩ c' h
  simp only [toJson, Json.object.injEq, List.cons.injEq, Prod.mk.injEq, Json.bool.injEq, true_and,
    and_true] at h
  obtain ⟨rfl, rfl, rfl, rfl⟩ := h
  rfl

theorem Library.isPlain_toJson {depth : Nat} (h : depth + 1 < Json.depthLimit) (l : Library) :
    IsPlain depth l.toJson := by
  refine .object (by omega) fun m hm => ?_
  simp only [List.mem_cons, List.not_mem_nil, or_false] at hm
  obtain rfl | rfl | rfl := hm
  · exact .string _
  · exact .ofOption .string _
  · exact l.expose.isPlain_toJson h

theorem Library.toJson_injective : Injective Library.toJson := by
  rintro ⟨baseDirectory, rootNamespace, expose⟩ l' h
  simp only [toJson, Json.object.injEq, List.cons.injEq, Prod.mk.injEq, Json.string.injEq,
    Json.ofOption_string_injective.eq_iff, Expose.toJson_injective.eq_iff, true_and, and_true] at h
  obtain ⟨rfl, rfl, rfl⟩ := h
  rfl

namespace Settings

theorem isPlain_toJson (s : Settings) : IsPlain 0 s.toJson := by
  have hLow : 0 + 1 < Json.depthLimit := by decide
  have hLibraries : ∀ l : Library, IsPlain (0 + 1 + 1) l.toJson :=
    fun l => l.isPlain_toJson (by decide)
  refine .object (by decide) fun m hm => ?_
  simp only [List.mem_cons, List.not_mem_nil, or_false] at hm
  obtain rfl | rfl | rfl | rfl | rfl | rfl | rfl | rfl | rfl | rfl | rfl | rfl | rfl | rfl | rfl |
    rfl | rfl | rfl := hm
  · exact .ofStrings hLow _
  · exact .string _
  · exact .string _
  · exact .ofOption .string _
  · exact .ofAssoc hLow hLibraries _
  · exact .ofAssoc hLow .string _
  · exact .ofAssoc hLow .string _
  · exact .ofOption (fun c => c.isPlain_toJson hLow) _
  · exact .bool _
  · exact s.expose.isPlain_toJson hLow
  · exact .ofOption .string _
  · exact .ofOption .string _
  · exact .ofAssoc hLow .string _
  · exact .ofOption .string _
  · exact .ofOption .string _
  · exact .ofOption .string _
  · exact .ofOption .string _
  · exact .bool _

theorem toJson_with (s : Settings) (force isLegible : Bool) :
    ({ s with force := force, isLegible := isLegible } : Settings).toJson = s.toJson :=
  rfl

/-- Settings of one text differ at most in whether they force a build, and in whether the paths that
the text shows are texts themselves. -/
theorem toJson_eq_iff {s s' : Settings} :
    s.toJson = s'.toJson ↔
      ({ s with force := s'.force, isLegible := s'.isLegible } : Settings) = s' := by
  constructor
  · intro h
    have hAssoc := Json.ofAssoc_injective Json.string_injective
    have hLibraries := Json.ofAssoc_injective Library.toJson_injective
    have hCompression := Json.ofOption_injective Compression.toJson_injective
      fun _ h => Json.noConfusion h
    obtain ⟨⟨_, _, _, _⟩, _, _, _, _, _, _, _, _, _, ⟨_, _, _, _⟩, _, _⟩ := s
    obtain ⟨⟨_, _, _, _⟩, _, _, _, _, _, _, _, _, _, ⟨_, _, _, _⟩, _, _⟩ := s'
    simp only [toJson, Json.object.injEq, List.cons.injEq, Prod.mk.injEq, Json.string.injEq,
      Json.bool.injEq, Json.ofStrings_injective.eq_iff, Json.ofOption_string_injective.eq_iff,
      hAssoc.eq_iff, hLibraries.eq_iff, hCompression.eq_iff, Expose.toJson_injective.eq_iff,
      true_and, and_true] at h
    obtain ⟨rfl, rfl, rfl, rfl, rfl, rfl, rfl, rfl, rfl, rfl, rfl, rfl, rfl, rfl, rfl, rfl, rfl,
      rfl⟩ := h
    rfl
  · intro h
    rw [← toJson_with s s'.force s'.isLegible, h]

end Settings

end DefineBundle
