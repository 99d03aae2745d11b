import DefineBundle.Json.Parse
import DefineBundle.Json.Text

/-!
# Reading back what was written

A tree without numbers is read back from its text, whatever follows it. So the text of such a tree
tells where it ends: two texts that begin with one each and are equal begin with the same one.
-/
namespace DefineBundle.Json

open DefineBundle.Script.Literal (hexNumber? charOf? isHigh)

/-- A character written by its number, unless it is the first half of a pair. -/
theorem stringTail_unicode {a b c d ch : Char} {n : Nat} (hn : hexNumber? [a, b, c, d] = some n)
    (hHigh : isHigh n = false) (hch : charOf? n = some ch) (acc rest : List Char) :
    stringTail acc ('\\' :: 'u' :: a :: b :: c :: d :: rest) = stringTail (ch :: acc) rest := by
  rw [stringTail.eq_def]
  split
  · rename_i h
    simp at h
  · rename_i h
    simp only [List.cons.injEq, true_and] at h
    obtain ⟨rfl, rfl, rfl, rfl, rfl⟩ := h
    simp only [hn, hHigh, hch, Bool.false_eq_true, if_false]
  · rename_i h
    simp only [List.cons.injEq, true_and] at h
    obtain ⟨rfl, rfl, rfl, rfl, rfl⟩ := h
    simp only [hn, hch, Option.bind_some]
  · rename_i hFew h
    simp only [List.cons.injEq, true_and] at h
    obtain ⟨rfl, rfl⟩ := h
    exact absurd rfl (hFew a b c d rest rfl)
  · rename_i hOne h
    simp only [List.cons.injEq] at h
    obtain ⟨rfl, rfl⟩ := h
    exact absurd rfl (hOne _ _ rfl)
  · rename_i h
    simp at h

theorem hexNumber?_hex2 : ∀ n < 0x20, hexNumber? ('0' :: '0' :: Text.hex2 n) = some n := by
  decide

theorem stringTail_escapeChar (c : Char) (acc rest : List Char) :
    stringTail acc (Text.escapeChar c ++ rest) = stringTail (c :: acc) rest := by
  unfold Text.escapeChar
  split
  iterate 7 rfl
  split
  · rename_i hSmall
    have hn := hexNumber?_hex2 c.toNat hSmall
    have hHigh : isHigh c.toNat = false := by
      simp only [isHigh, Bool.and_eq_false_iff, decide_eq_false_iff_not]
      omega
    have hch : charOf? c.toNat = some c := by
      have hBelow : c.toNat < 0xD800 := by omega
      simp [charOf?, hBelow]
    exact stringTail_unicode hn hHigh hch acc rest
  · rename_i hQuote hBackslash _ _ _ _ _ hLarge
    rw [List.singleton_append, stringTail]
    · simp only [Bool.or_eq_true, decide_eq_true_eq, beq_iff_eq, hLarge, false_or]
      exact if_neg hBackslash
    all_goals simp_all

theorem stringTail_flatMap_escapeChar (cs acc rest : List Char) :
    stringTail acc (cs.flatMap Text.escapeChar ++ '"' :: rest) =
      some (cs.reverse ++ acc, rest) := by
  induction cs generalizing acc with
  | nil => rfl
  | cons c cs ih =>
      rw [List.flatMap_cons, List.append_assoc, stringTail_escapeChar, ih]
      simp

theorem string?_string (s : String) (rest : List Char) :
    string? (s.toList.flatMap Text.escapeChar ++ '"' :: rest) = some (s, rest) := by
  simp [string?, stringTail_flatMap_escapeChar]

/-- Trees without numbers and faults that a reader takes in when it is `depth` lists and objects
deep. -/
inductive IsPlain : Nat → Json → Prop
  | null {depth : Nat} : IsPlain depth null
  | bool {depth : Nat} (b : Bool) : IsPlain depth (bool b)
  | string {depth : Nat} (s : String) : IsPlain depth (string s)
  | array {depth : Nat} {items : List Json} (depth_lt : depth < depthLimit)
      (items_plain : ∀ j ∈ items, IsPlain (depth + 1) j) : IsPlain depth (array items true)
  | object {depth : Nat} {members : List (String × Json)} (depth_lt : depth < depthLimit)
      (members_plain : ∀ m ∈ members, IsPlain (depth + 1) m.2) : IsPlain depth (object members true)

theorem skipSpace_cons {c : Char} (h : isSpace c = false) (cs : List Char) :
    skipSpace (c :: cs) = c :: cs := by
  simp [skipSpace, h]

/-- A text that starts a value: not with space, and not like the end of a list or what separates
its items. -/
def StartsValue (cs : List Char) : Prop :=
  ∃ c rest, cs = c :: rest ∧ isSpace c = false ∧ c ≠ ']' ∧ c ≠ ','

theorem StartsValue.append {cs : List Char} (h : StartsValue cs) (rest : List Char) :
    StartsValue (cs ++ rest) := by
  obtain ⟨c, tail, rfl, hc⟩ := h
  exact ⟨c, tail ++ rest, rfl, hc⟩

theorem StartsValue.skipSpace {cs : List Char} (h : StartsValue cs) : Json.skipSpace cs = cs := by
  obtain ⟨c, tail, rfl, hc, -⟩ := h
  exact skipSpace_cons hc tail

theorem StartsValue.head?_ne {cs : List Char} (h : StartsValue cs) : cs.head? ≠ some ']' := by
  obtain ⟨c, tail, rfl, -, hc, -⟩ := h
  simpa using hc

theorem IsPlain.startsValue {depth : Nat} {j : Json} (h : IsPlain depth j) :
    StartsValue j.chars := by
  cases h with
  | null => exact ⟨_, _, rfl, by decide⟩
  | bool b => cases b <;> exact ⟨_, _, rfl, by decide⟩
  | string s => exact ⟨_, _, rfl, by decide⟩
  | @array _ items _ _ => cases items <;> exact ⟨_, _, rfl, by decide⟩
  | @object _ members _ _ => cases members <;> exact ⟨_, _, rfl, by decide⟩

/-- Every text of enough length that begins with the text of a tree is read as the tree and the
rest. -/
def ReadsBack (depth : Nat) (j : Json) : Prop :=
  ∀ n rest, 3 * j.chars.length ≤ n → valueFrom n depth (j.chars ++ rest) = (j, rest)

theorem itemFrom_chars {depth : Nat} {j : Json} {items : List Json} {n : Nat} {rest : List Char}
    (hj : ReadsBack depth j)
    (hItems : ∀ n, 3 * (itemChars items).length ≤ n →
      itemsFrom n depth false (itemChars items ++ rest) = (items, true, rest))
    (hn : 3 * (j.chars ++ itemChars items).length + 1 ≤ n) :
    itemFrom n depth (j.chars ++ (itemChars items ++ rest)) = (j :: items, true, rest) := by
  rw [List.length_append] at hn
  obtain ⟨n, rfl⟩ : ∃ m, n = m + 1 := ⟨n - 1, by omega⟩
  rw [itemFrom, hj n _ (by omega)]
  simp only [hItems n (by omega)]

theorem itemsFrom_itemChars {depth : Nat} {items : List Json}
    (hPlain : ∀ j ∈ items, IsPlain depth j) (hBack : ∀ j ∈ items, ReadsBack depth j) (n : Nat)
    (rest : List Char) (hn : 3 * (itemChars items).length ≤ n) :
    itemsFrom n depth false (itemChars items ++ rest) = (items, true, rest) := by
  induction items generalizing n with
  | nil =>
      obtain ⟨n, rfl⟩ : ∃ m, n = m + 1 := ⟨n - 1, by simp [itemChars] at hn; omega⟩
      rfl
  | cons j items ih =>
      rw [List.forall_mem_cons] at hPlain hBack
      rw [itemChars, List.length_cons] at hn
      obtain ⟨n, rfl⟩ : ∃ m, n = m + 1 := ⟨n - 1, by omega⟩
      have hStart := (hPlain.1.startsValue).append (itemChars items ++ rest)
      have hNext : (skipSpace (j.chars ++ (itemChars items ++ rest))).head? ≠ some ']' := by
        rw [hStart.skipSpace]
        exact hStart.head?_ne
      have hItem := itemFrom_chars hBack.1 (fun n => ih hPlain.2 hBack.2 n) (n := n) (by omega)
      rw [itemChars, List.cons_append, List.append_assoc, itemsFrom,
        skipSpace_cons (by decide)]
      simp only [Bool.false_or, beq_iff_eq, hNext, if_false, hItem]

theorem memberFrom_chars {depth : Nat} {m : String × Json} {members : List (String × Json)}
    {n : Nat} {rest : List Char} (hm : ReadsBack depth m.2)
    (hMembers : ∀ n, 3 * (membersChars members).length ≤ n →
      membersFrom n depth false (membersChars members ++ rest) = (members, true, rest))
    (hn : 3 * (memberChars m ++ membersChars members).length + 1 ≤ n) :
    memberFrom n depth (memberChars m ++ (membersChars members ++ rest)) =
      (m :: members, true, rest) := by
  obtain ⟨key, j⟩ := m
  rw [List.length_append, memberChars, List.length_append, List.length_cons] at hn
  obtain ⟨n, rfl⟩ : ∃ m, n = m + 1 := ⟨n - 1, by omega⟩
  have hKey := string?_string key (':' :: (j.chars ++ (membersChars members ++ rest)))
  have hValue : valueFrom n depth (j.chars ++ (membersChars members ++ rest)) =
      (j, membersChars members ++ rest) := hm n _ (by dsimp only; omega)
  simp only [memberChars, Text.string, List.cons_append, List.append_assoc, List.nil_append,
    memberFrom, hKey]
  rw [skipSpace_cons (by decide)]
  simp only [hValue, hMembers n (by omega)]

theorem memberChars_eq_cons (m : String × Json) :
    ∃ cs, memberChars m = '"' :: cs := by
  obtain ⟨key, j⟩ := m
  exact ⟨_, rfl⟩

theorem membersFrom_membersChars {depth : Nat} {members : List (String × Json)}
    (hBack : ∀ m ∈ members, ReadsBack depth m.2) (n : Nat) (rest : List Char)
    (hn : 3 * (membersChars members).length ≤ n) :
    membersFrom n depth false (membersChars members ++ rest) = (members, true, rest) := by
  induction members generalizing n with
  | nil =>
      obtain ⟨n, rfl⟩ : ∃ m, n = m + 1 := ⟨n - 1, by simp [membersChars] at hn; omega⟩
      rfl
  | cons m members ih =>
      rw [List.forall_mem_cons] at hBack
      rw [membersChars, List.length_cons] at hn
      obtain ⟨n, rfl⟩ : ∃ m, n = m + 1 := ⟨n - 1, by omega⟩
      have hMember := memberFrom_chars hBack.1 (fun n => ih hBack.2 n) (n := n) (by omega)
      have hNext : skipSpace (memberChars m ++ (membersChars members ++ rest)) =
          memberChars m ++ (membersChars members ++ rest) := by
        obtain ⟨cs, h⟩ := memberChars_eq_cons m
        rw [h, List.cons_append, skipSpace_cons (by decide)]
      rw [membersChars, List.cons_append, List.append_assoc, membersFrom,
        skipSpace_cons (by decide)]
      simp only [Bool.false_eq_true, if_false, hNext, hMember]

theorem readsBack_array {depth : Nat} {items : List Json} (hDepth : depth < depthLimit)
    (hPlain : ∀ j ∈ items, IsPlain (depth + 1) j)
    (hBack : ∀ j ∈ items, ReadsBack (depth + 1) j) : ReadsBack depth (array items true) := by
  intro n rest hn
  cases items with
  | nil =>
      obtain ⟨n, rfl⟩ : ∃ m, n = m + 2 := ⟨n - 2, by simp [chars] at hn; omega⟩
      have hOpen := Nat.not_le_of_lt hDepth
      simp [chars, valueFrom, itemsFrom, skipSpace, isSpace, hOpen]
  | cons j items =>
      rw [List.forall_mem_cons] at hPlain hBack
      rw [chars, List.length_cons] at hn
      obtain ⟨n, rfl⟩ : ∃ m, n = m + 2 := ⟨n - 2, by omega⟩
      have hItem := itemFrom_chars hBack.1
        (fun n => itemsFrom_itemChars hPlain.2 hBack.2 n rest) (n := n) (by omega)
      have hStart := (hPlain.1.startsValue).append (itemChars items ++ rest)
      have hItems : itemsFrom (n + 1) (depth + 1) true (j.chars ++ (itemChars items ++ rest)) =
          (j :: items, true, rest) := by
        rw [itemsFrom, hStart.skipSpace, ← hItem]
        obtain ⟨c, cs, h, -, hEnd, hComma⟩ := hStart
        rw [h]
        split <;> simp_all
      rw [chars, List.cons_append, List.append_assoc, valueFrom, skipSpace_cons (by decide)]
      simp only [Nat.not_le_of_lt hDepth, if_false, hItems]

theorem readsBack_object {depth : Nat} {members : List (String × Json)}
    (hDepth : depth < depthLimit) (hBack : ∀ m ∈ members, ReadsBack (depth + 1) m.2) :
    ReadsBack depth (object members true) := by
  intro n rest hn
  cases members with
  | nil =>
      obtain ⟨n, rfl⟩ : ∃ m, n = m + 2 := ⟨n - 2, by simp [chars] at hn; omega⟩
      have hOpen := Nat.not_le_of_lt hDepth
      simp [chars, valueFrom, membersFrom, skipSpace, isSpace, hOpen]
  | cons m members =>
      rw [List.forall_mem_cons] at hBack
      rw [chars, List.length_cons] at hn
      obtain ⟨n, rfl⟩ : ∃ m, n = m + 2 := ⟨n - 2, by omega⟩
      have hMember := memberFrom_chars hBack.1
        (fun n => membersFrom_membersChars hBack.2 n rest) (n := n) (by omega)
      have hMembers : membersFrom (n + 1) (depth + 1) true
          (memberChars m ++ (membersChars members ++ rest)) = (m :: members, true, rest) := by
        obtain ⟨cs, h⟩ := memberChars_eq_cons m
        rw [← hMember, h, List.cons_append, membersFrom, skipSpace_cons (by decide)]
        rfl
      rw [chars, List.cons_append, List.append_assoc, valueFrom, skipSpace_cons (by decide)]
      simp only [Nat.not_le_of_lt hDepth, if_false, hMembers]

/-- A plain tree is read back from its text. -/
theorem IsPlain.readsBack {depth : Nat} {j : Json} (h : IsPlain depth j) : ReadsBack depth j := by
  induction h with
  | null =>
      intro n rest hn
      obtain ⟨n, rfl⟩ : ∃ m, n = m + 1 := ⟨n - 1, by simp [chars] at hn; omega⟩
      rfl
  | bool b =>
      intro n rest hn
      cases b
      all_goals
        obtain ⟨n, rfl⟩ : ∃ m, n = m + 1 := ⟨n - 1, by simp [chars] at hn; omega⟩
        rfl
  | string s =>
      intro n rest hn
      obtain ⟨n, rfl⟩ : ∃ m, n = m + 1 := ⟨n - 1, by simp [chars, Text.string] at hn; omega⟩
      rw [chars, Text.string, List.cons_append, List.append_assoc, valueFrom,
        skipSpace_cons (by decide)]
      simp only [List.cons_append, List.nil_append, string?_string]
  | array hDepth hPlain ih => exact readsBack_array hDepth hPlain ih
  | object hDepth _ ih => exact readsBack_object hDepth ih

/-- A text determines the plain tree that it begins with. -/
theorem chars_append_inj {j j' : Json} (hj : IsPlain 0 j) (hj' : IsPlain 0 j')
    {rest rest' : List Char} (h : j.chars ++ rest = j'.chars ++ rest') : j = j' ∧ rest = rest' := by
  have hLeft := hj.readsBack (3 * j.chars.length + 3 * j'.chars.length) rest (by omega)
  have hRight := hj'.readsBack (3 * j.chars.length + 3 * j'.chars.length) rest' (by omega)
  rw [h, hRight] at hLeft
  exact ⟨(congrArg Prod.fst hLeft).symm, (congrArg Prod.snd hLeft).symm⟩

/-- A document that holds the text of a plain tree is parsed as that tree. -/
theorem parse_text {j : Json} (h : IsPlain 0 j) : parse j.text = (j, true) := by
  have hRead := h.readsBack (3 * j.chars.length + 3) [] (by omega)
  rw [List.append_nil] at hRead
  simp [parse, text, hRead, skipSpace]

end DefineBundle.Json
