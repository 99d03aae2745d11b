import DefineBundle.CommandLine.Arguments
import DefineBundle.Failure

/-!
# The flags of a command line

Which flags a command line has can be told from its texts one by one, without the values between
them: a value never looks like a flag. Where arguments are read at all, these are the flags that
they were read to give.
-/
namespace DefineBundle.CommandLine

/-- The flags among letters; the first that takes a value has the other letters for its value. -/
def Flag.ofLetters : List Char → List Flag
  | [] => []
  | c :: cs => match Flag.ofShort? c with
    | none => []
    | some (.setting s) => [.setting s]
    | some f => f :: ofLetters cs

def Flag.ofText (text : String) : List Flag :=
  match text.toList with
  | '-' :: '-' :: name =>
      (Flag.ofLong? (String.ofList ((Text.splitFirst? ['='] name).elim name Prod.fst))).toList
  | '-' :: c :: cs => Flag.ofLetters (c :: cs)
  | _ => []

/-- The flags of a command line, which end at two dashes alone. -/
def Flag.ofTexts (texts : List String) : List Flag :=
  (texts.takeWhile (· != "--")).flatMap Flag.ofText

namespace Arguments

variable {a a' : Arguments}

/-- Whether arguments give a flag. Those that ask for help or for the version are never given: there
is no run then. -/
def gives (a : Arguments) : Flag → Prop
  | .setting s => a.isSet s = true
  | .switch s => a.has s = true
  | .verbose => 0 < a.verbosity
  | .help | .version => False

theorem not_gives_empty (f : Flag) : ¬ empty.gives f := by
  cases f with
  | setting s => cases s <;> exact Bool.false_ne_true
  | switch s => exact Bool.false_ne_true
  | verbose => exact Nat.lt_irrefl 0
  | help => exact id
  | version => exact id

theorem isSet_of_set {s : Setting} {value : String} (h : a.set s value = .ok a') :
    (∀ s', a'.isSet s' = (a.isSet s' || s' == s)) ∧ a'.switches = a.switches ∧
      a'.verbosity = a.verbosity := by
  unfold set at h
  split at h
  · cases h
  · cases s with
    | config | workingDirectory | baseDirectory | output =>
        obtain ⟨path, -, h⟩ := exists_of_bind_eq_ok h
        cases h
        exact ⟨fun s' => by cases s' <;> simp [isSet], rfl, rfl⟩
    | rootNamespace | version | releaseDate =>
        cases h
        exact ⟨fun s' => by cases s' <;> simp [isSet], rfl, rfl⟩
    | expose =>
        dsimp only at h
        split at h
        · cases h
          exact ⟨fun s' => by cases s' <;> simp [isSet], rfl, rfl⟩
        · cases h

theorem gives_set_iff {s : Setting} {value : String} (h : a.set s value = .ok a') (f : Flag) :
    a'.gives f ↔ a.gives f ∨ f = .setting s := by
  obtain ⟨hsettings, hswitches, hverbosity⟩ := isSet_of_set h
  cases f with
  | setting s' => simp [gives, hsettings]
  | switch s' => simp [gives, has, hswitches]
  | verbose => simp [gives, hverbosity]
  | help => simp [gives]
  | version => simp [gives]

theorem gives_turnOn_iff {f : Flag} (h : a.turnOn f = .ok a') (g : Flag) :
    a'.gives g ↔ a.gives g ∨ g = f := by
  cases f with
  | setting s => cases h
  | help => cases h
  | version => cases h
  | verbose =>
      cases h
      cases g with
      | verbose => simp [gives]
      | _ => simp [gives, isSet, has]
  | switch s =>
      rw [turnOn] at h
      split at h
      · cases h
      · cases h
        cases g with
        | switch s' => simp [gives, has, or_comm]
        | _ => simp [gives, isSet]

end Arguments

namespace Reading

variable {r r' : Reading}

/-- Whether a flag has been read, with its value or still without. -/
def gives (r : Reading) (f : Flag) : Prop :=
  r.arguments.gives f ∨ ∃ s value, r.waiting = some (s, value) ∧ f = .setting s

theorem gives_settle_iff {a : Arguments} (h : r.settle = .ok a) (f : Flag) :
    a.gives f ↔ r.gives f := by
  unfold settle at h
  split at h
  · rename_i hwaiting
    cases h
    simp [gives, hwaiting]
  · cases h
  · rename_i s value hwaiting
    rw [Arguments.gives_set_iff h]
    simp [gives, hwaiting]

theorem gives_of_not_waiting {a : Arguments} (f : Flag) : gives ⟨a, none⟩ f ↔ a.gives f := by
  simp [gives]

theorem gives_turnOn_iff {f : Flag} (h : r.turnOn f = .ok r') (g : Flag) :
    r'.gives g ↔ r.gives g ∨ g = f := by
  obtain ⟨a, hsettle, h⟩ := exists_of_bind_eq_ok h
  obtain ⟨a', hon, h⟩ := exists_of_bind_eq_ok h
  cases h
  rw [gives_of_not_waiting, Arguments.gives_turnOn_iff hon, gives_settle_iff hsettle]

theorem gives_assign_iff {s : Setting} {value : String} (h : r.assign s value = .ok r')
    (g : Flag) : r'.gives g ↔ r.gives g ∨ g = .setting s := by
  obtain ⟨a, hsettle, h⟩ := exists_of_bind_eq_ok h
  obtain ⟨a', hset, h⟩ := exists_of_bind_eq_ok h
  cases h
  rw [gives_of_not_waiting, Arguments.gives_set_iff hset, gives_settle_iff hsettle]

theorem gives_await_iff {s : Setting} (h : r.await s = .ok r') (g : Flag) :
    r'.gives g ↔ r.gives g ∨ g = .setting s := by
  obtain ⟨a, hsettle, h⟩ := exists_of_bind_eq_ok h
  cases h
  rw [gives, gives_settle_iff hsettle]
  simp

theorem gives_long_iff {name : String} {value : Option String} (h : r.long name value = .ok r')
    (g : Flag) : r'.gives g ↔ r.gives g ∨ g ∈ (Flag.ofLong? name).toList := by
  unfold long at h
  split at h
  · cases h
  · rename_i s v hname
    rw [gives_assign_iff h, hname]
    simp
  · rename_i s hname
    rw [gives_await_iff h, hname]
    simp
  · cases h
  · rename_i f _ hname
    rw [gives_turnOn_iff h, hname]
    simp

theorem gives_short_iff {cs : List Char} (h : r.short cs = .ok r') (g : Flag) :
    r'.gives g ↔ r.gives g ∨ g ∈ Flag.ofLetters cs := by
  induction cs generalizing r with
  | nil =>
      cases h
      simp [Flag.ofLetters]
  | cons c cs ih =>
      unfold short at h
      split at h
      · cases h
      · rename_i s hletter
        rw [Flag.ofLetters, hletter]
        split at h
        · rw [gives_await_iff h]
          simp
        · rw [gives_assign_iff h]
          simp
        · rw [gives_assign_iff h]
          simp
      · rename_i f hnot hletter
        obtain ⟨r₁, hon, h⟩ := exists_of_bind_eq_ok h
        rw [ih h, gives_turnOn_iff hon, Flag.ofLetters, hletter]
        cases f with
        | setting s => exact absurd rfl (hnot s)
        | _ => simp [or_assoc]

theorem gives_plain_iff {text : String} (h : r.plain text = .ok r') (g : Flag) :
    r'.gives g ↔ r.gives g := by
  unfold plain at h
  split at h
  · rename_i s hwaiting
    cases h
    simp [gives, hwaiting]
  · obtain ⟨a, hsettle, h⟩ := exists_of_bind_eq_ok h
    cases h
    rw [← gives_settle_iff hsettle, gives_of_not_waiting]
    cases g <;> rfl

theorem gives_argument_iff {text : String} (h : r.argument text = .ok r') (g : Flag) :
    r'.gives g ↔ r.gives g ∨ g ∈ Flag.ofText text := by
  unfold argument at h
  split at h
  · rename_i name htext
    have hflags : Flag.ofText text = (Flag.ofLong? (String.ofList
        ((Text.splitFirst? ['='] name).elim name Prod.fst))).toList := by
      simp only [Flag.ofText, htext]
    rw [hflags]
    split at h
    · rename_i before value hsplit
      rw [gives_long_iff h, hsplit, Option.elim_some]
    · rename_i hsplit
      rw [gives_long_iff h, hsplit, Option.elim_none]
  · rename_i c cs hdash htext
    have hflags : Flag.ofText text = Flag.ofLetters (c :: cs) := by
      unfold Flag.ofText
      rw [htext]
      split
      · rename_i he
        exact absurd (List.cons.inj (List.cons.inj he).2).1 hdash
      · rename_i he
        rw [(List.cons.inj he).2]
      · rename_i hother
        exact absurd rfl (hother c cs)
    rw [hflags, gives_short_iff h]
  · rename_i hlong hshort
    have hflags : Flag.ofText text = [] := by
      unfold Flag.ofText
      split
      · rename_i name htext
        exact absurd htext (hlong name)
      · rename_i c cs _ htext
        exact absurd htext (hshort c cs)
      · rfl
    rw [hflags, gives_plain_iff h]
    simp

theorem gives_all_iff {texts : List String} {a : Arguments} (h : r.all texts = .ok a) (g : Flag) :
    a.gives g ↔ r.gives g ∨ g ∈ Flag.ofTexts texts := by
  induction texts generalizing r with
  | nil =>
      rw [gives_settle_iff h]
      simp [Flag.ofTexts]
  | cons text texts ih =>
      unfold all at h
      split at h
      · rename_i hdashes
        obtain ⟨a', hsettle, h⟩ := exists_of_bind_eq_ok h
        cases h
        rw [← gives_settle_iff hsettle]
        have hnone : Flag.ofTexts (text :: texts) = [] := by
          simp [Flag.ofTexts, beq_iff_eq.mp hdashes]
        rw [hnone]
        cases g <;> simp [Arguments.gives, Arguments.isSet, Arguments.has]
      · rename_i hdashes
        obtain ⟨r₁, hargument, h⟩ := exists_of_bind_eq_ok h
        rw [ih h, gives_argument_iff hargument, or_assoc]
        have hcons : Flag.ofTexts (text :: texts) = Flag.ofText text ++ Flag.ofTexts texts := by
          simp only [Flag.ofTexts]
          rw [List.takeWhile_cons_of_pos (by simpa using hdashes), List.flatMap_cons]
        rw [hcons, List.mem_append]

end Reading

theorem Arguments.gives_iff_of_parse {texts : List String} {a : Arguments}
    (h : Arguments.parse texts = .ok a) (f : Flag) : a.gives f ↔ f ∈ Flag.ofTexts texts := by
  obtain ⟨a', hall, h⟩ := exists_of_bind_eq_ok h
  have ha : a' = a := by
    unfold check at h
    split at h
    · cases h
    · split at h
      · cases h
      · exact Except.ok.inj h
  rw [← ha, Reading.gives_all_iff hall, Reading.gives_of_not_waiting]
  exact or_iff_right (not_gives_empty f)

end DefineBundle.CommandLine
