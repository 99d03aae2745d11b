import DefineBundle.Failure
import DefineBundle.Files.Cache
import DefineBundle.Module.Basic
import DefineBundle.Report

/-!
# What has been found

The state of a discovery: the files reached so far and those being loaded, the modules recorded,
and everything there was to report. Each way in which the state grows is an operation here.
-/
namespace DefineBundle

/-- What has been found so far. -/
structure Discovery where
  /-- The paths reached, in their order. -/
  visited : List String
  /-- The paths that are being loaded, the innermost first. -/
  loading : List String
  /-- The path that first declared an id. -/
  declaredIn : Assoc String
  /-- The modules whose dependencies have all been visited, in the order in which they were
  recorded. -/
  modules : List ModuleRecord
  warnings : List Warning
  /-- The latest change of a file loaded. -/
  latest : Nat
  cache : FileCache
  log : List Message

namespace Discovery

def start (cache : FileCache) : Discovery :=
  ⟨[], [], ∅, [], [], 0, cache, []⟩

def say (d : Discovery) (level : Level) (text : String) : Discovery :=
  { d with log := d.log ++ [⟨level, text⟩] }

def warn (d : Discovery) (w : Warning) : Discovery :=
  { d.say .warn w.text with warnings := d.warnings ++ [w] }

/-- A file is reached, and its loading begins. -/
def enter (d : Discovery) (path : String) : Discovery :=
  { d with visited := d.visited ++ [path], loading := path :: d.loading }

def leave (d : Discovery) (path : String) : Discovery :=
  { d with loading := d.loading.erase path }

/-- A module is recorded, after its dependencies. Its id belongs to the file that declared it
first; a second file gets a warning. -/
def record (d : Discovery) (m : ModuleRecord) : Discovery :=
  let d := match d.declaredIn.get? m.id with
    | some first => if first = m.path then d else d.warn (.duplicateId m.id first m.path)
    | none => { d with declaredIn := d.declaredIn.insert m.id m.path }
  { d with modules := d.modules ++ [m] }

section
variable (d : Discovery) (m : ModuleRecord)

@[simp]
theorem record_modules : (d.record m).modules = d.modules ++ [m] := by
  unfold record
  split
  · split <;> rfl
  · rfl

@[simp]
theorem record_visited : (d.record m).visited = d.visited := by
  unfold record
  split
  · split <;> rfl
  · rfl

@[simp]
theorem record_loading : (d.record m).loading = d.loading := by
  unfold record
  split
  · split <;> rfl
  · rfl

@[simp]
theorem record_latest : (d.record m).latest = d.latest := by
  unfold record
  split
  · split <;> rfl
  · rfl

@[simp]
theorem record_cache : (d.record m).cache = d.cache := by
  unfold record
  split
  · split <;> rfl
  · rfl

theorem record_warnings : (d.record m).warnings = d.warnings ∨
    ∃ w, (d.record m).warnings = d.warnings ++ [w] := by
  unfold record
  split
  · split
    · exact .inl rfl
    · exact .inr ⟨_, rfl⟩
  · exact .inl rfl

/-- An id belongs to the file that declared it first. -/
theorem record_declaredIn (id : String) : (d.record m).declaredIn.get? id =
    (d.declaredIn.get? id).or (if id = m.id then some m.path else none) := by
  cases h : d.declaredIn.get? m.id with
  | none =>
      by_cases hid : id = m.id
      · simp [record, h, hid, Assoc.get?_insert]
      · simp [record, h, hid, Assoc.get?_insert]
  | some first =>
      have hkept : (d.record m).declaredIn = d.declaredIn := by
        simp only [record, h]
        split <;> rfl
      rw [hkept]
      by_cases hid : id = m.id
      · simp [hid, h]
      · simp [hid]

end

def halt {α : Type} (d : Discovery) (fault : BuildFault) : Except (Halted Discovery) α :=
  .error ⟨.of fault, d⟩

end Discovery

end DefineBundle
