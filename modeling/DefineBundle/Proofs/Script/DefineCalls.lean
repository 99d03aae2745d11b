import DefineBundle.Discovery.Source
import DefineBundle.Proofs.Lists.Traversals

/-!
# Calls that declare modules

A call of `define` declares a module when its first argument is a string literal, its second a list
of string literals and its third a function. The modules of a text are not known when the text is no
script, or when one of its outermost calls of `define` declares none.
-/
namespace DefineBundle

namespace Script

open DefineBundle.Script.Tree

/-- The arguments of a call of `define` that declares a module; what comes after the function plays
no part. -/
inductive IsDefinition : List Tree → Prop
  | intro {id factory : Tree} {es rest : List Tree} : (stringValue? id).isSome →
      (∀ e ∈ es, (stringValue? e).isSome) → (paramCount? factory).isSome →
      IsDefinition (id :: node .array es :: factory :: rest)

theorem IsDefinition.exists_ofArguments? {arguments : List Tree} (h : IsDefinition arguments) :
    ∃ m, Declaration.ofArguments? arguments = .ok m := by
  obtain ⟨hid, hes, hfactory⟩ := h
  obtain ⟨id, hid⟩ := Option.isSome_iff_exists.mp hid
  obtain ⟨deps, hdeps⟩ := exists_mapM_eq_some hes
  obtain ⟨params, hparams⟩ := Option.isSome_iff_exists.mp hfactory
  refine ⟨⟨id, deps, params⟩, ?_⟩
  simp only [Declaration.ofArguments?, hid, Declaration.deps?, hdeps, List.drop_one, List.tail_cons,
    List.head?_cons, Option.bind_some, hparams]
  rfl

/-- A script whose modules are not known has a call of `define` that declares none. -/
theorem exists_of_declarations_eq_error {t : Tree} {fault : MalformedDefine}
    (h : declarations t = .error fault) : ∃ arguments ∈ t.defineCalls,
      ¬ IsDefinition arguments ∧ Declaration.ofArguments? arguments = .error fault := by
  obtain ⟨arguments, hmem, he⟩ := exists_of_mapM_eq_error h
  refine ⟨arguments, hmem, fun hd => ?_, he⟩
  obtain ⟨m, hm⟩ := hd.exists_ofArguments?
  rw [hm] at he
  cases he

end Script

def DeclarationFault.Describes (text : String) : DeclarationFault → Prop
  | notAScript => Script.parse? text = none
  | malformed fault => ∃ tree, Script.parse? text = some tree ∧ ∃ arguments ∈ tree.defineCalls,
      ¬ Script.IsDefinition arguments ∧ Script.Declaration.ofArguments? arguments = .error fault

theorem describes_of_declarationsOf {text : String} {reason : DeclarationFault}
    (h : declarationsOf text = .error reason) : reason.Describes text := by
  unfold declarationsOf at h
  split at h
  · rename_i hnone
    cases h
    exact hnone
  · rename_i tree htree
    split at h
    · rename_i fault hfault
      cases h
      exact ⟨tree, htree, Script.exists_of_declarations_eq_error hfault⟩
    · cases h

theorem exists_of_declarationsOf_eq_nil {text : String} (h : declarationsOf text = .ok []) :
    ∃ tree, Script.parse? text = some tree ∧ tree.defineCalls = [] := by
  unfold declarationsOf at h
  split at h
  · cases h
  · rename_i tree htree
    refine ⟨tree, htree, ?_⟩
    split at h
    · cases h
    · rename_i ms hms
      cases h
      cases hcalls : tree.defineCalls with
      | nil => rfl
      | cons arguments calls =>
          rw [Script.declarations, hcalls, List.mapM_cons] at hms
          obtain ⟨m, -, hms⟩ := exists_of_bind_eq_ok hms
          obtain ⟨ms, -, hms⟩ := exists_of_bind_eq_ok hms
          cases hms

end DefineBundle
