import DefineBundle.Bundle.Generate
import DefineBundle.Discovery.Entries
import DefineBundle.Fingerprint.Basic

/-!
# Builds

A bundler discovers the modules of its settings and takes their fingerprint, and makes their bundles
unless the development bundle on disk says that nothing has changed. It writes only after all
bundles are made. Each build starts from an empty cache, and a failing one ends its report with the
failure.
-/
namespace DefineBundle

structure Outcome where
  assets : List Asset
  warnings : List Warning
  modules : List ModuleRecord
  fingerprint : String
  /-- Whether nothing had changed, so that nothing was made. -/
  isSkipped : Bool
  latest : Nat
  deriving DecidableEq, Repr

/-- What builds its settings again and again. -/
structure Bundler where
  settings : Settings
  tools : Tools
  cache : FileCache

/-- A build that is over: its result and report, and what it leaves behind. -/
structure Finished (σ : Type) where
  result : Except Failure Outcome
  log : List Message
  bundler : Bundler
  files : σ

namespace Bundler

/-- A bundler for options, in the current directory of the user. -/
def ofOptions {π : Type} [PathForm π] [DecidableEq π] (current : π) (tools : Tools)
    (o : Options π) : Except Failure Bundler :=
  match o.settings current with
  | .ok settings => .ok ⟨settings, tools, .empty⟩
  | .error e => .error (.of (.badOptions e))

/-- What a build looks for before it makes anything. -/
def announce (s : Settings) (d : Discovery) : List Message :=
  ⟨.debug, "Discovered " ++ toString d.modules.length ++ " modules in " ++
      toString d.visited.length ++ " files"⟩ ::
    if s.hasOutput then []
    else [⟨.info, "No output configured, only module discovery was run"⟩]

/-- Bundles are written one after the other, up to the first that cannot be. -/
def writeAll {σ : Type} (fs : FileSystem σ) : List Asset → σ →
    Except Failure Unit × List Message × σ
  | [], files => (.ok (), [], files)
  | a :: rest, files => match fs.write a.path a.content files with
    | (.error e, files) => (.error (.of (.inaccessible a.path e)), [], files)
    | (.ok (), files) =>
        let (r, log, files) := writeAll fs rest files
        (r, ⟨.info, "Wrote " ++ a.target.word ++ " version to " ++ a.path⟩ :: log, files)

/-- The bundles of what was found, written if `writes` says so. -/
def deliver {σ : Type} (fs : FileSystem σ) (writes : Bool) (b : Bundler) (files : σ)
    (d : Discovery) (fingerprint : String) : Except Failure Outcome × List Message × σ :=
  match Bundle.generate ⟨b.tools, b.settings, d.modules, fingerprint⟩ with
  | .error ⟨e, g⟩ => (.error e, g.log, files)
  | .ok g =>
      let (r, log, files) := if writes then writeAll fs g.assets files else (.ok (), [], files)
      (r.map fun _ =>
          ⟨g.assets, d.warnings ++ g.warnings, d.modules, fingerprint, false, d.latest⟩,
        g.log ++ log, files)

def finish {σ : Type} (fs : FileSystem σ) (writes : Bool) (b : Bundler) (files : σ)
    (d : Discovery) : Except Failure Outcome × List Message × σ :=
  match Fingerprint.make d.modules b.settings with
  | .error e => (.error e, [], files)
  | .ok fingerprint =>
      if Fingerprint.isStale (fs.view files) b.settings fingerprint then
        deliver fs writes b files d fingerprint
      else
        (.ok ⟨[], d.warnings, d.modules, fingerprint, true, d.latest⟩,
          [⟨.info, "All outputs are up to date"⟩], files)

def lastWords {α : Type} : Except Failure α → List Message
  | .ok _ => []
  | .error e => [⟨.fatal, e.text⟩]

def build {σ : Type} (fs : FileSystem σ) (writes : Bool) (b : Bundler) (files : σ) : Finished σ :=
  match Discovery.run (fs.view files) b.settings b.cache.clear with
  | .error ⟨e, d⟩ =>
      ⟨.error e, d.log ++ lastWords (.error e : Except Failure Unit), { b with cache := d.cache },
        files⟩
  | .ok d =>
      let (r, log, files) := finish fs writes b files d
      ⟨r, d.log ++ announce b.settings d ++ log ++ lastWords r, { b with cache := d.cache }, files⟩

end Bundler

end DefineBundle
