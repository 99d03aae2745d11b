import DefineBundle.CommandLine.Reach
import DefineBundle.CommandLine.Run
import DefineBundle.CommandLine.Usage
import DefineBundle.Files.Walk

/-!
# The program

Arguments, files and terminal of the real machine. The files that a run can reach are read into a
`Disk`, the run is computed on it, and what it has changed is written back. Whoever makes a program
of this brings the tools.
-/
namespace DefineBundle.Program

/-- A time of change in milliseconds; times before 1970 count as none. -/
def milliseconds (t : IO.FS.SystemTime) : Nat :=
  if t.sec < 0 then 0 else t.sec.toNat * 1000 + t.nsec.toNat / 1000000

def location (path : String) : Location :=
  (Disk.names path).filter (!·.isEmpty)

def pathAt (l : Location) : String :=
  String.join (l.map ("/" ++ ·))

/-- A name that no file has, for the target of a link that leads nowhere. -/
def nowhere : String :=
  "\x00"

/-- The target of a link, free of further links. -/
def target (path : String) : IO String := do
  let here := (← IO.currentDir) / path
  if ← here.pathExists then return (← IO.FS.realPath path).toString else return nowhere

/-- What stands at a path, without following a link there. -/
def node? (path : String) : IO (Option Node) := do
  let here := (← IO.currentDir) / path
  try
    let m ← here.symlinkMetadata
    match m.type with
    | .dir => return some .directory
    | .symlink => return some (.link (← target path))
    | .file =>
        let bytes ← IO.FS.readBinFile path
        return some (.file ⟨String.fromUTF8? bytes, milliseconds m.modified⟩)
    | .other => return none
  catch _ => return none

/-- The disk with what stands at a path, at the directories above it, and where links lead. -/
partial def note (path : String) (d : Disk) : IO Disk := do
  let l := location path
  if (d.node? l).isSome then return d
  let d ← note (pathAt l.dropLast) d
  match ← node? path with
  | none => return d
  | some n =>
      let d := { d with entries := (l, .own n) :: d.entries }
      match n with
      | .link t => if t == nowhere then return d else note t d
      | _ => return d

/-- The disk with everything at and below a path. `seen` has the directories that were entered. -/
partial def explore (seen : List String) (path : String) (d : Disk) : IO (List String × Disk) := do
  let mut d ← note path d
  let mut seen := seen
  if d.isDirectory path then
    let real := (← IO.FS.realPath path).toString
    d ← note real d
    if !seen.contains real then
      seen := real :: seen
      for entry in ← ((← IO.currentDir) / real).readDir do
        (seen, d) ← explore seen entry.path.toString d
  return (seen, d)

/-- The disk with everything that a run can reach. -/
def prepare (r : CommandLine.Reach) (d : Disk) : IO Disk := do
  let mut d := d
  for path in r.paths do
    d ← note path d
  let mut seen := []
  for path in r.trees do
    (seen, d) ← explore seen path d
  return d

/-- What a run has changed is written, the oldest change first. -/
def commit (before after : Disk) : IO Unit := do
  for (l, e) in (after.entries.filter fun e => before.entryAt? e.1 != some e.2).reverse do
    match e.node with
    | .directory => IO.FS.createDirAll (pathAt l)
    | .file f => IO.FS.writeFile (pathAt l) (f.content.getD "")
    | .link _ | .device _ => pure ()

def run (tools : Tools) (a : CommandLine.Arguments) : IO UInt32 := do
  let current := (← IO.currentDir).toString
  let blank : Disk := ⟨[], current, 0⟩
  let disk ← note current blank
  let disk ← a.config.elim (pure disk) fun p => note (Path.normalize (Path.join current p)) disk
  let start ← IO.monoMsNow
  let disk ← prepare (CommandLine.reach disk.view current a) disk
  let r := CommandLine.run Disk.fileSystem current tools a disk
  commit disk r.files
  let elapsed := (← IO.monoMsNow) - start
  for m in r.log (toString elapsed) do
    for l in CommandLine.lines m do
      IO.eprintln l
  IO.print r.output
  return r.exitCode.toUInt32

/-- Runs the program with the arguments of the command line. -/
def main (tools : Tools) (args : List String) : IO UInt32 := do
  match CommandLine.Arguments.parse args with
  | .ok a => run tools a
  | .error r => match r.answer? with
    | some text =>
        IO.print text
        return 0
    | none =>
        IO.eprint ("error: " ++ r.complaint ++ "\n\n" ++ CommandLine.usage)
        return 2

end DefineBundle.Program
