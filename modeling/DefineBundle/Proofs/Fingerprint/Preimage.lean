import DefineBundle.Fingerprint.Basic
import DefineBundle.Proofs.Options.SettingsText
import Mathlib.Data.List.Basic

/-!
# What a fingerprint covers

The lines of the modules and the text of the settings stand behind one another without a separator.
They can still be told apart: a path ends where the first NUL stands, a time of change at the line
break behind its digits, and the last line where the text goes on with no path.
-/
namespace DefineBundle.Text

theorem encodeUtf8_injective : Function.Injective encodeUtf8 :=
  Function.LeftInverse.injective decodeUtf8_encodeUtf8

end DefineBundle.Text

namespace DefineBundle.Fingerprint

def stamp (m : ModuleRecord) : String × Nat :=
  (m.path, m.modified)

theorem toDigits_injective : Function.Injective (Nat.toDigits 10) := by
  intro n k h
  have hn : Nat.ofDigitChars 10 (Nat.toDigits 10 n) 0 = n :=
    Nat.ofDigitChars_toDigits (by decide) (by decide)
  have hk : Nat.ofDigitChars 10 (Nat.toDigits 10 k) 0 = k :=
    Nat.ofDigitChars_toDigits (by decide) (by decide)
  rw [← hn, h, hk]

theorem lineBreak_notMem_toDigits (n : Nat) : '\n' ∉ Nat.toDigits 10 n := by
  intro h
  have hDigit : '\n'.isDigit = true :=
    Nat.isDigit_of_mem_toDigits (by decide) (by decide) h
  exact absurd hDigit (by decide)

theorem line_append (m : ModuleRecord) (rest : List Char) :
    line m ++ rest = m.path.toList ++ '\x00' :: (Nat.toDigits 10 m.modified ++ '\n' :: rest) := by
  simp [line]

theorem append_cons_inj {a : Char} {xs ys rest rest' : List Char} (hx : a ∉ xs) (hy : a ∉ ys)
    (h : xs ++ a :: rest = ys ++ a :: rest') : xs = ys ∧ rest = rest' := by
  rcases List.append_eq_append_iff.mp h with ⟨mid, rfl, hMid⟩ | ⟨mid, rfl, hMid⟩
  all_goals
    cases mid with
    | nil => simpa [eq_comm] using hMid
    | cons b mid =>
        have hb : a = b := (List.cons.inj hMid).1
        simp [hb] at hx hy

/-- A line determines what it covers and where it ends. -/
theorem line_append_inj {m m' : ModuleRecord} (hm : '\x00' ∉ m.path.toList)
    (hm' : '\x00' ∉ m'.path.toList) {rest rest' : List Char}
    (h : line m ++ rest = line m' ++ rest') : stamp m = stamp m' ∧ rest = rest' := by
  rw [line_append, line_append] at h
  obtain ⟨hPath, hTail⟩ := append_cons_inj hm hm' h
  obtain ⟨hDigits, hRest⟩ :=
    append_cons_inj (lineBreak_notMem_toDigits _) (lineBreak_notMem_toDigits _) hTail
  have hPath : m.path = m'.path := String.toList_inj.mp hPath
  have hModified : m.modified = m'.modified := toDigits_injective hDigits
  exact ⟨by rw [stamp, stamp, hPath, hModified], hRest⟩

/-- Lines determine what they cover, and where they end when what follows them does not begin with
another one. -/
theorem flatMap_line_append_inj {ms ms' : List ModuleRecord} {rest rest' : List Char}
    (hms : ∀ m ∈ ms, '\x00' ∉ m.path.toList) (hms' : ∀ m ∈ ms', '\x00' ∉ m.path.toList)
    (hRest : ∀ m ∈ ms', ∀ tail, rest ≠ line m ++ tail)
    (hRest' : ∀ m ∈ ms, ∀ tail, rest' ≠ line m ++ tail)
    (h : ms.flatMap line ++ rest = ms'.flatMap line ++ rest') :
    ms.map stamp = ms'.map stamp ∧ rest = rest' := by
  induction ms generalizing ms' with
  | nil =>
      cases ms' with
      | nil => exact ⟨rfl, h⟩
      | cons m' ms' =>
          rw [List.flatMap_cons, List.append_assoc] at h
          exact absurd h (hRest m' List.mem_cons_self _)
  | cons m ms ih =>
      cases ms' with
      | nil =>
          rw [List.flatMap_cons, List.append_assoc] at h
          exact absurd h.symm (hRest' m List.mem_cons_self _)
      | cons m' ms' =>
          rw [List.flatMap_cons, List.flatMap_cons, List.append_assoc, List.append_assoc] at h
          rw [List.forall_mem_cons] at hms hms' hRest hRest'
          obtain ⟨hHead, hTail⟩ := line_append_inj hms.1 hms'.1 h
          obtain ⟨hStamps, hEnd⟩ := ih hms.2 hms'.2 hRest.2 hRest'.2 hTail
          exact ⟨by rw [List.map_cons, List.map_cons, hHead, hStamps], hEnd⟩

theorem flatMap_line_eq_of_stamps {ms ms' : List ModuleRecord} (h : ms.map stamp = ms'.map stamp) :
    ms.flatMap line = ms'.flatMap line := by
  have hLine : ∀ ms : List ModuleRecord, ms.flatMap line = (ms.map stamp).flatMap
      fun p => p.1.toList ++ '\x00' :: (Nat.toDigits 10 p.2 ++ ['\n']) := fun ms => by
    rw [List.flatMap_map]
    rfl
  rw [hLine, h, ← hLine]

theorem preimage_eq_iff_covered {ms ms' : List ModuleRecord} {s s' : Settings} :
    preimage ms s = preimage ms' s' ↔ covered ms s = covered ms' s' :=
  Text.encodeUtf8_injective.eq_iff

/-- Under the same settings the lines alone are compared, and paths need not be absolute. -/
theorem map_stamp_eq_of_preimage_eq {ms ms' : List ModuleRecord} {s : Settings}
    (hNul : ∀ m ∈ ms ++ ms', '\x00' ∉ m.path.toList) (h : preimage ms s = preimage ms' s) :
    ms.map stamp = ms'.map stamp := by
  rw [List.forall_mem_append] at hNul
  have hLines : ms.flatMap line = ms'.flatMap line :=
    List.append_cancel_right (preimage_eq_iff_covered.mp h)
  have hEnd : ∀ (m : ModuleRecord) (tail : List Char), [] ≠ line m ++ tail := fun m tail he => by
    rw [line_append] at he
    simp at he
  exact (flatMap_line_append_inj hNul.1 hNul.2 (fun m _ => hEnd m) (fun m _ => hEnd m)
    (congrArg (· ++ []) hLines)).1

theorem head?_toJson (s : Settings) : s.toJson.chars.head? = some '\x7b' :=
  rfl

theorem toJson_ne_line {m : ModuleRecord} (h : m.path.toList.head? = some '/') (s : Settings)
    (tail : List Char) : s.toJson.chars ≠ line m ++ tail := by
  intro he
  have hHead := congrArg List.head? he
  rw [head?_toJson, line_append, List.head?_append, h, Option.some_or] at hHead
  exact absurd hHead (by decide)

/-- Where paths are absolute and hold no NUL, the digested bytes are those of one list of paths and
times of change, in order, and of one set of settings but for `force`. What is no text in a path is
shown as a replacement; settings with such a path are digested in no build. -/
theorem preimage_eq_iff {ms ms' : List ModuleRecord} {s s' : Settings}
    (hAbsolute : ∀ m ∈ ms ++ ms', m.path.toList.head? = some '/')
    (hNul : ∀ m ∈ ms ++ ms', '\x00' ∉ m.path.toList) :
    preimage ms s = preimage ms' s' ↔
      ms.map (fun m => (m.path, m.modified)) = ms'.map (fun m => (m.path, m.modified)) ∧
        ({ s with force := s'.force, isLegible := s'.isLegible } : Settings) = s' := by
  rw [preimage_eq_iff_covered]
  constructor
  · intro h
    rw [List.forall_mem_append] at hAbsolute hNul
    obtain ⟨hStamps, hText⟩ := flatMap_line_append_inj hNul.1 hNul.2
      (fun m hm => toJson_ne_line (hAbsolute.2 m hm) s)
      (fun m hm => toJson_ne_line (hAbsolute.1 m hm) s') h
    have hWhole : s.toJson.chars ++ [] = s'.toJson.chars ++ [] := by rw [hText]
    obtain ⟨hTree, -⟩ := Json.chars_append_inj s.isPlain_toJson s'.isPlain_toJson hWhole
    exact ⟨hStamps, Settings.toJson_eq_iff.mp hTree⟩
  · rintro ⟨hStamps, hSettings⟩
    rw [covered, covered, flatMap_line_eq_of_stamps hStamps, Settings.toJson_eq_iff.mpr hSettings]

/-- A line break and digits in a path do not pass for the end of a line. -/
theorem preimage_ne_of_lineBreak : ∃ s, Options.empty.settings "/" = .ok s ∧
    preimage [⟨"a", "/a", "", [], true, false, 12⟩, ⟨"b", "/b", "", [], true, false, 3⟩] s ≠
      preimage [⟨"a", "/a", "", [], true, false, 1⟩, ⟨"b", "/2\n/b", "", [], true, false, 3⟩] s := by
  refine ⟨_, rfl, fun h => ?_⟩
  have hStamps := ((preimage_eq_iff (by decide) (by decide)).mp h).1
  exact absurd hStamps (by decide)

end DefineBundle.Fingerprint
