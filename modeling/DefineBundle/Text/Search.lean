/-!
# Finding and replacing text

Occurrences of one list of characters in another, read from the left and without overlaps.
-/
namespace DefineBundle.Text

/-- What holds of every character of a list is decided on the list, not over all characters. -/
instance (priority := high) decidableForallMem (p : Char → Prop) [DecidablePred p]
    (cs : List Char) : Decidable (∀ c ∈ cs, p c) :=
  List.decidableBAll p cs

/-- The characters after `start`, when the text begins with it. -/
def after? : List Char → List Char → Option (List Char)
  | [], cs => some cs
  | s :: ss, c :: cs => if s == c then after? ss cs else none
  | _ :: _, [] => none

theorem after?_eq_some_iff {start cs rest : List Char} :
    after? start cs = some rest ↔ cs = start ++ rest := by
  induction start generalizing cs with
  | nil => simp [after?, eq_comm]
  | cons s ss ih =>
      cases cs with
      | nil => simp [after?]
      | cons c cs =>
          by_cases h : s = c
          · simp [after?, h, ih]
          · simp [after?, h, Ne.symm h]

/-- The text before and after the first occurrence of a word. -/
def splitFirst? (word : List Char) : List Char → Option (List Char × List Char)
  | [] => if word.isEmpty then some ([], []) else none
  | c :: cs =>
      match after? word (c :: cs) with
      | some rest => some ([], rest)
      | none => (splitFirst? word cs).map fun (before, rest) => (c :: before, rest)

theorem eq_of_splitFirst? {word cs before rest : List Char}
    (h : splitFirst? word cs = some (before, rest)) : cs = before ++ (word ++ rest) := by
  induction cs generalizing before rest with
  | nil =>
      unfold splitFirst? at h
      split at h
      · rename_i hw
        simp only [Option.some.injEq, Prod.mk.injEq] at h
        obtain ⟨rfl, rfl⟩ := h
        simp [List.isEmpty_iff.1 hw]
      · simp at h
  | cons c cs ih =>
      unfold splitFirst? at h
      split at h
      · rename_i r hr
        simp only [Option.some.injEq, Prod.mk.injEq] at h
        obtain ⟨rfl, rfl⟩ := h
        simpa using after?_eq_some_iff.1 hr
      · simp only [Option.map_eq_some_iff] at h
        obtain ⟨⟨b, r⟩, hs, he⟩ := h
        simp only [Prod.mk.injEq] at he
        obtain ⟨rfl, rfl⟩ := he
        simp [ih hs]

/-- The text before and after the last occurrence of a word. -/
def splitLast? (word : List Char) : List Char → Option (List Char × List Char)
  | [] => if word.isEmpty then some ([], []) else none
  | c :: cs =>
      match splitLast? word cs with
      | some (before, rest) => some (c :: before, rest)
      | none => (after? word (c :: cs)).map fun rest => ([], rest)

def occurs (word cs : List Char) : Bool :=
  (splitFirst? word cs).isSome

/-- The text after `skip` more characters with every occurrence of a word replaced. -/
def replaceFrom (word value : List Char) : Nat → List Char → List Char
  | _, [] => []
  | skip + 1, _ :: cs => replaceFrom word value skip cs
  | 0, c :: cs =>
      match after? word (c :: cs) with
      | some _ => value ++ replaceFrom word value (word.length - 1) cs
      | none => c :: replaceFrom word value 0 cs

/-- The text with every occurrence of a non-empty word replaced. -/
def replaceAll (word value cs : List Char) : List Char :=
  if word.isEmpty then cs else replaceFrom word value 0 cs

/-- The pieces of a text between the occurrences of a separator. -/
def splitOn (separator : Char) : List Char → List (List Char)
  | [] => [[]]
  | c :: cs =>
      if c == separator then [] :: splitOn separator cs
      else match splitOn separator cs with
        | piece :: pieces => (c :: piece) :: pieces
        | [] => [[c]]

/-- Pieces of text with a separator between them. -/
def joinWith (separator : List Char) : List (List Char) → List Char
  | [] => []
  | [p] => p
  | p :: ps => p ++ separator ++ joinWith separator ps

end DefineBundle.Text
