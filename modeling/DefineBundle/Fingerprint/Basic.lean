import DefineBundle.Failure
import DefineBundle.Fingerprint.Sha256
import DefineBundle.Module.Basic
import DefineBundle.Options.Settings
import DefineBundle.Text.Bytes

/-!
# Fingerprints

What a build was made from, in one line: the digest of the path and the time of change of every
module, in order, and of the settings. Settings with a path that is no text cannot be written out,
so they have no fingerprint.
-/
namespace DefineBundle.Fingerprint

/-- What is covered of a module. -/
def line (m : ModuleRecord) : List Char :=
  m.path.toList ++ '\x00' :: (Nat.toDigits 10 m.modified ++ ['\n'])

def covered (ms : List ModuleRecord) (s : Settings) : List Char :=
  ms.flatMap line ++ s.toJson.chars

def preimage (ms : List ModuleRecord) (s : Settings) : List UInt8 :=
  Text.encodeUtf8 (covered ms s)

def of (ms : List ModuleRecord) (s : Settings) : String :=
  Sha256.hex (preimage ms s)

/-- The fingerprint of a build, or why there is none. -/
def make (ms : List ModuleRecord) (s : Settings) : Except Failure String :=
  if s.isLegible then .ok (of ms s) else .error (.of (.badOptions .illegiblePath))

theorem make_of_isLegible {s : Settings} (h : s.isLegible = true) (ms : List ModuleRecord) :
    make ms s = .ok (of ms s) :=
  if_pos h

theorem make_eq_ok_iff {ms : List ModuleRecord} {s : Settings} {fingerprint : String} :
    make ms s = .ok fingerprint ↔ s.isLegible = true ∧ fingerprint = of ms s := by
  unfold make
  split
  · rename_i h
    simp [h, eq_comm]
  · rename_i h
    simp [h]

end DefineBundle.Fingerprint
