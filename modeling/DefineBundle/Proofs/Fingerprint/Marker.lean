import DefineBundle.Fingerprint.Basic
import DefineBundle.Proofs.Bundle.Making
import Mathlib.Data.List.Basic

/-!
# Reading fingerprints back

The fingerprint that a development bundle ends in is read back from it. A bundle without one has
none to be read, because what it ends in is code and a fingerprint is digits.
-/
namespace DefineBundle.Fingerprint

open DefineBundle.Text

theorem isHexDigit_digitChar {n : Nat} (h : n < 16) : isHexDigit (Nat.digitChar n) = true := by
  have hall : ∀ k : Fin 16, isHexDigit (Nat.digitChar k) = true := by decide
  exact hall ⟨n, h⟩

theorem isBlank_of_isHexDigit {c : Char} (h : isHexDigit c = true) : isBlank c = false := by
  have hrange : 48 ≤ c.toNat ∧ c.toNat ≤ 102 := by
    simp only [isHexDigit, Char.isDigit, Bool.or_eq_true, Bool.and_eq_true, decide_eq_true_eq,
      Char.le_def, UInt32.le_iff_toNat_le, ge_iff_le] at h
    have hdef : c.toNat = c.val.toNat := rfl
    have hzero : '0'.val.toNat = 48 := rfl
    have hnine : '9'.val.toNat = 57 := rfl
    have ha : 'a'.val.toNat = 97 := rfl
    have hf : 'f'.val.toNat = 102 := rfl
    have hA : 'A'.val.toNat = 65 := rfl
    have hF : 'F'.val.toNat = 70 := rfl
    omega
  simp only [isBlank, Bool.or_eq_false_iff, Bool.and_eq_false_iff, decide_eq_false_iff_not,
    beq_eq_false_iff_ne]
  omega

theorem isHexDigit_of_mem_hex {message : List UInt8} {c : Char}
    (h : c ∈ (Sha256.hex message).toList) : isHexDigit c = true := by
  simp only [Sha256.hex, String.toList_ofList, List.mem_flatMap, Sha256.hexWord,
    List.mem_map] at h
  obtain ⟨w, -, shift, -, rfl⟩ := h
  exact isHexDigit_digitChar (Nat.mod_lt _ (by decide))

theorem hex_ne_nil (message : List UInt8) : (Sha256.hex message).toList ≠ [] := by
  simp [Sha256.hex, Sha256.State.words, Sha256.hexWord]

/-- Digits after a marker are read back: there is no later marker, for a marker begins with two
slashes. -/
theorem splitLast?_marker {digits : List Char} (h : ∀ c ∈ digits, isHexDigit c = true) :
    splitLast? marker (marker ++ digits) = some ([], digits) := by
  have hslash : '/' ∉ digits := fun hm => absurd (h _ hm) (by decide)
  have hrest : splitLast? marker (marker.drop 2 ++ digits) = none :=
    splitLast?_eq_none (by simp [marker, hslash])
  have hone : splitLast? marker ('/' :: (marker.drop 2 ++ digits)) = none := by
    rw [splitLast?, hrest]
    rfl
  have hall : after? marker (marker ++ digits) = some digits := after?_eq_some_iff.mpr rfl
  change splitLast? marker ('/' :: '/' :: (marker.drop 2 ++ digits)) = _
  rw [splitLast?, hone]
  change (after? marker (marker ++ digits)).map _ = _
  rw [hall]
  rfl

theorem toList_write (fingerprint : String) :
    (write fingerprint).toList = marker ++ fingerprint.toList ++ ['\n'] := by
  simp [write]

/-- A text ends, the blanks at its end aside, in a marker and digits behind it. -/
structure Carries (content digits : List Char) : Prop where
  ends : marker ++ digits <:+ trimEnd content
  ne_nil : digits ≠ []
  hex : ∀ c ∈ digits, isHexDigit c = true

/-- What is read is what the text carries: the marker at its end is the last one. -/
theorem read?_eq_some_iff {content digits : List Char} :
    read? content = some digits ↔ Carries content digits := by
  constructor
  · intro h
    unfold read? at h
    split at h
    · rename_i before found hsplit
      split at h
      · rename_i hdigits
        obtain rfl : found = digits := Option.some.inj h
        rw [Bool.and_eq_true, List.all_eq_true] at hdigits
        obtain ⟨hne, hhex⟩ := hdigits
        exact ⟨⟨before, (eq_of_splitLast? hsplit).symm⟩, by simpa using hne, hhex⟩
      · cases h
    · cases h
  · rintro ⟨⟨before, hends⟩, hne, hhex⟩
    unfold read?
    rw [← hends, splitLast?_append (splitLast?_marker hhex)]
    have hall : digits.all isHexDigit = true := List.all_eq_true.mpr hhex
    simp [hall, hne]

theorem Carries.unique {content digits digits' : List Char} (h : Carries content digits)
    (h' : Carries content digits') : digits = digits' :=
  Option.some.inj ((read?_eq_some_iff.mpr h).symm.trans (read?_eq_some_iff.mpr h'))

/-- With a fingerprint written behind it, any text carries that fingerprint. -/
theorem carries_write (cs : List Char) {fingerprint : String} (hne : fingerprint ≠ "")
    (hhex : ∀ c ∈ fingerprint.toList, isHexDigit c = true) :
    Carries (cs ++ (write fingerprint).toList) fingerprint.toList := by
  have hdigits : fingerprint.toList ≠ [] := by simpa using hne
  refine ⟨⟨cs, ?_⟩, hdigits, hhex⟩
  rw [toList_write]
  generalize fingerprint.toList = digits at hdigits hhex
  -- the line break at the end is trimmed, and the digit before it is not
  obtain ⟨ds, d, rfl⟩ := (List.eq_nil_or_concat' digits).resolve_left hdigits
  have hd := isBlank_of_isHexDigit (hhex d (by simp))
  have hbreak : isBlank '\n' = true := by decide
  simp only [← List.append_assoc, trimEnd_concat, hbreak, hd, if_true]
  rfl

/-- The fingerprint written behind any text is the one that is read. -/
theorem read?_write (cs : List Char) (message : List UInt8) :
    read? (cs ++ (write (Sha256.hex message)).toList) = some (Sha256.hex message).toList := by
  have hne : Sha256.hex message ≠ "" := fun he => hex_ne_nil message (by rw [he]; rfl)
  exact read?_eq_some_iff.mpr (carries_write cs hne fun c hc => isHexDigit_of_mem_hex hc)

/-- A text whose last visible character is no digit has no fingerprint. -/
theorem read?_eq_none {cs : List Char} {c : Char} (h : (trimEnd cs).getLast? = some c)
    (hc : isHexDigit c = false) : read? cs = none := by
  unfold read?
  split
  · rename_i before digits hs
    cases digits with
    | nil => simp
    | cons d digits =>
        have hlast : (d :: digits).getLast? = some c := by
          rw [eq_of_splitLast? hs] at h
          simpa [List.getLast?_append] using h
        have hmem := List.mem_of_getLast? hlast
        have hall : (d :: digits).all isHexDigit = false := by
          simp only [List.all_eq_false]
          exact ⟨c, hmem, by simp [hc]⟩
        simp [hall]
  · rfl

section
variable {view view' : FileView} {s : Settings}

theorem previous?_of_read {path text : String} (hp : s.outputs.development = some path)
    (hfile : view.isFile path = true) (hread : view.read path = .ok text) :
    previous? view s = (read? text.toList).map String.ofList := by
  simp [previous?, hp, hfile, hread]

/-- The fingerprint on disk is that of the file at the path of the development bundle. -/
theorem previous?_congr
    (h : ∀ path, s.outputs.development = some path → view.SameText view' path) :
    previous? view' s = previous? view s := by
  unfold previous?
  cases hp : s.outputs.development with
  | none => rfl
  | some path =>
      have hsame := h path hp
      dsimp only
      rw [hsame.isFile]
      split
      · rename_i hfile
        rw [hsame.read hfile]
      · rfl

/-- Nothing is made exactly when the fingerprint on disk is that of the build. -/
theorem isStale_eq_false_iff {fingerprint : String} (hforce : s.force = false) :
    isStale view s fingerprint = false ↔ previous? view s = some fingerprint := by
  simp [isStale, hforce]

end

end DefineBundle.Fingerprint

namespace DefineBundle.Bundle

open DefineBundle.Text
open DefineBundle.Fingerprint (isHexDigit read? read?_write read?_eq_none read?_eq_some_iff Carries
  carries_write)

/-- A bundle that ends as its loader does carries no fingerprint. -/
theorem read?_insertCode? {loader cs code bundle : List Char} (hloader : loader = cs ++ lastLines)
    (h : Loader.insertCode? loader code = some bundle) (front : List Char) :
    read? (front ++ bundle) = none := by
  obtain ⟨bundle', hbundle, body, hend⟩ := exists_insertCode? hloader code
  obtain rfl : bundle = bundle' := Option.some.inj (h.symm.trans hbundle)
  have hline : "\n\x7d)(this);\n".toList = "\n\x7d)(this)".toList ++ [';'] ++ ['\n'] := by decide
  have hstop : isBlank ';' = false := by decide
  have hbreak : isBlank '\n' = true := by decide
  have hdigit : isHexDigit ';' = false := by decide
  refine read?_eq_none ?_ hdigit
  rw [← hend, hline]
  simp only [← List.append_assoc]
  rw [trimEnd_concat, hbreak, if_pos rfl, trimEnd_concat, hstop]
  simp

/-- What is read from a development bundle is the fingerprint that it was made with, or nothing when
it was made without. -/
theorem read?_development {s : Settings} {ms : List ModuleRecord} {message : List UInt8}
    {path text : String} (h : development s ms (Sha256.hex message) path = .ok text) :
    read? text.toList = if s.hash then some (Sha256.hex message).toList else none := by
  unfold development at h
  obtain ⟨bundle, hplaced, htext⟩ := exists_of_bind_eq_ok h
  cases htext
  cases hhash : s.hash with
  | true =>
      simp only [if_true, String.toList_append, String.toList_ofList]
      exact read?_write _ _
  | false =>
      obtain ⟨cs, hcs⟩ := developmentLoader_eq path
      have hnone := read?_insertCode? hcs (placed_eq_ok_iff.mp hplaced) []
      simpa using hnone

/-- A development bundle carries the fingerprint that it was made with, whatever its code holds. -/
theorem carries_development {s : Settings} {ms : List ModuleRecord} {fingerprint path text : String}
    (h : development s ms fingerprint path = .ok text) (hhash : s.hash = true)
    (hne : fingerprint ≠ "") (hhex : ∀ c ∈ fingerprint.toList, isHexDigit c = true) :
    Carries text.toList fingerprint.toList := by
  unfold development at h
  obtain ⟨bundle, -, htext⟩ := exists_of_bind_eq_ok h
  cases htext
  rw [if_pos hhash, String.toList_append, String.toList_ofList]
  exact carries_write _ hne hhex

/-- The digits that a text carries are those that are read from it, and there is only one choice of
them. A development bundle with a fingerprint can always be made, and that fingerprint is read back
from it. -/
theorem fingerprint_readBack :
    (∀ content digits, read? content = some digits ↔ Carries content digits) ∧
      (∀ content digits digits', Carries content digits → Carries content digits' →
        digits = digits') ∧
      ∀ (s : Settings) (ms : List ModuleRecord) (fingerprint path : String), s.hash = true →
        fingerprint ≠ "" → (∀ c ∈ fingerprint.toList, isHexDigit c = true) →
        ∃ text, development s ms fingerprint path = .ok text ∧
          read? text.toList = some fingerprint.toList := by
  refine ⟨fun _ _ => read?_eq_some_iff, fun _ _ _ h h' => h.unique h', ?_⟩
  intro s ms fingerprint path hhash hne hhex
  obtain ⟨text, htext⟩ := exists_development s ms fingerprint path
  exact ⟨text, htext, read?_eq_some_iff.mpr (carries_development htext hhash hne hhex)⟩

/-- A module whose inline source ends in a fingerprint of its own. -/
def misleadingModule : ModuleRecord :=
  ⟨"a", "/p/a.js", "define('a', [], f);\n// $hash: 00\n", [], true, true, 0⟩

theorem fingerprint_readBack_misleading :
    ∃ s, Options.empty.settings "/p" = .ok s ∧ s.hash = true ∧ "0aF9" ≠ "" ∧
      (∀ c ∈ "0aF9".toList, isHexDigit c = true) ∧
      ∃ text, development s [misleadingModule] "0aF9" "/p/out.js" = .ok text ∧
        read? text.toList = some "0aF9".toList := by
  have hhex : ∀ c ∈ "0aF9".toList, isHexDigit c = true := by decide
  exact ⟨_, rfl, rfl, by decide, hhex,
    fingerprint_readBack.2.2 _ [misleadingModule] "0aF9" "/p/out.js" rfl (by decide) hhex⟩

theorem read?_readable {instrument : Option Instrumenter} {s : Settings} {ms : List ModuleRecord}
    {text : String} (h : readable instrument s ms = .ok text) : read? text.toList = none := by
  unfold readable at h
  obtain ⟨written, -, h⟩ := exists_of_bind_eq_ok h
  obtain ⟨bundle, hplaced, htext⟩ := exists_of_bind_eq_ok h
  cases htext
  obtain ⟨cs, hcs⟩ := inlineText_eq
  rw [withBanner, String.toList_append, String.toList_ofList]
  exact read?_insertCode? hcs (placed_eq_ok_iff.mp hplaced) _

theorem read?_of_mem_assets {m : Material} {g : Generation} {a : Asset} (h : generate m = .ok g)
    (ha : a ∈ g.assets) (ht : a.target = .source ∨ a.target = .coverage) :
    read? a.content.toList = none := by
  have hcontent := content_of_mem_assets h ha
  rcases ht with ht | ht
  · rw [ht] at hcontent
    obtain ⟨text, htext, he⟩ := exists_of_map_eq_ok hcontent
    obtain rfl : text = a.content := Option.some.inj he
    exact read?_readable htext
  · rw [ht, content] at hcontent
    split at hcontent
    · obtain ⟨text, htext, he⟩ := exists_of_map_eq_ok hcontent
      obtain rfl : text = a.content := Option.some.inj he
      exact read?_readable htext
    · cases hcontent

end DefineBundle.Bundle
