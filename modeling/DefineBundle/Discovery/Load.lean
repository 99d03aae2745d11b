import DefineBundle.Discovery.Source
import DefineBundle.Module.Exposure

/-!
# Loading files

The depth-first walk over the files that modules lead to. A file is marked as visited before its
dependencies are loaded, so it is loaded at most once, and a module is recorded once its
dependencies are. A dependency on a file that is still being loaded closes a cycle, unless that
file has already declared the id that is asked for.
-/
namespace DefineBundle.Discovery

open DefineBundle.Script (Declaration)

/-- The loading of a path that a referrer asks for. -/
abbrev Loader := String → Option String → Discovery → Except (Halted Discovery) Discovery

structure Origin where
  path : String
  /-- Its text with placeholders replaced. -/
  source : String
  isVirtual : Bool
  modified : Nat

/-- The file at a path with the text behind it. -/
def originOf (s : Settings) (path : String) (t : SourceText) : Origin :=
  ⟨path, s.tokens.substitute t.text, t.isVirtual, t.modified⟩

/-- A dependency of the module `id` in the file at `path`. -/
def visitDependency (load : Loader) (s : Settings) (path id : String) (d : Discovery)
    (dep : String) : Except (Halted Discovery) Discovery :=
  if dep == id || !s.includes dep then .ok d
  else if d.loading.contains (s.pathOf dep) then
    .ok (if d.declaredIn.get? dep == some (s.pathOf dep) then d
      else d.warn (.circularDependency (s.pathOf dep)))
  else load (s.pathOf dep) (some path) d

def recordOf (s : Settings) (o : Origin) (m : Declaration) : ModuleRecord :=
  ⟨m.id, o.path, o.source, m.deps, s.publishes m.id o.source, o.isVirtual, o.modified⟩

/-- The state with a warning for a factory that does not fit its dependencies. -/
def checkArity (o : Origin) (m : Declaration) (d : Discovery) : Discovery :=
  if m.deps.length = m.params then d
  else d.warn (.arityMismatch m.id o.path m.deps.length m.params)

section
variable (o : Origin) (m : Declaration) (d : Discovery)

@[simp]
theorem checkArity_modules : (checkArity o m d).modules = d.modules := by
  unfold checkArity
  split <;> rfl

@[simp]
theorem checkArity_visited : (checkArity o m d).visited = d.visited := by
  unfold checkArity
  split <;> rfl

@[simp]
theorem checkArity_loading : (checkArity o m d).loading = d.loading := by
  unfold checkArity
  split <;> rfl

@[simp]
theorem checkArity_declaredIn : (checkArity o m d).declaredIn = d.declaredIn := by
  unfold checkArity
  split <;> rfl

@[simp]
theorem checkArity_latest : (checkArity o m d).latest = d.latest := by
  unfold checkArity
  split <;> rfl

@[simp]
theorem checkArity_cache : (checkArity o m d).cache = d.cache := by
  unfold checkArity
  split <;> rfl

theorem checkArity_warnings : (checkArity o m d).warnings = d.warnings ∨
    ∃ w, (checkArity o m d).warnings = d.warnings ++ [w] := by
  unfold checkArity
  split
  · exact .inl rfl
  · exact .inr ⟨_, rfl⟩

end

/-- A declaration: its dependencies are visited, then it is recorded. -/
def visitDeclaration (load : Loader) (s : Settings) (o : Origin) (d : Discovery)
    (m : Declaration) : Except (Halted Discovery) Discovery := do
  let d ← m.deps.foldlM (visitDependency load s o.path m.id) (checkArity o m d)
  return d.record (recordOf s o m)

/-- The text behind a path that has been entered. -/
def fetch (view : FileView) (s : Settings) (path : String) (referrer : Option String)
    (d : Discovery) : Except (Halted Discovery) (SourceText × Discovery) :=
  match SourceText.find view s.inlineSources path d.cache with
  | (.error fault, cache) => { d with cache }.halt fault
  | (.ok none, cache) => { d with cache }.halt (.missingFile path referrer)
  | (.ok (some t), cache) =>
      let d := { d with cache }.say .debug ("Parsing module file: " ++ path)
      .ok (t, { d with latest := max d.latest t.modified })

/-- The declarations of an entered file are visited, and the file is left. -/
def visitSource (load : Loader) (s : Settings) (path : String) (t : SourceText) (d : Discovery) :
    Except (Halted Discovery) Discovery :=
  let o := originOf s path t
  match declarationsOf o.source with
  | .error reason => d.halt (.badDeclaration path reason)
  | .ok ms => do return (← ms.foldlM (visitDeclaration load s o) d).leave path

/-- Loads a file and all it leads to, with at most `n` files inside each other. -/
def loadFile (view : FileView) (s : Settings) : Nat → Loader
  | 0, path, referrer, d =>
      if d.visited.contains path then .ok d else d.halt (.missingFile path referrer)
  | n + 1, path, referrer, d =>
      if d.visited.contains path then .ok d
      else do
        let (t, d) ← fetch view s path referrer (d.enter path)
        visitSource (loadFile view s n) s path t d

end DefineBundle.Discovery
