import DefineBundle.CommandLine.Run
import DefineBundle.Files.Listing
import DefineBundle.Proofs.CommandLine.Flags
import DefineBundle.Proofs.Options.WrittenOptions

/-!
# Flags and the configuration file

The options of a run are those of the configuration file with those of the arguments laid over them.
A flag that sets an option wins over the file, and an option of which no flag speaks is the one of
the file. But arguments can only set an option and not take one away, so the two flags that turn a
bundle off turn off no bundle that the file asks for.
-/
namespace DefineBundle

namespace Options

/-- The options by name. -/
inductive Key
  | inputs | workingDirectory | baseDirectory | rootNamespace | libraries | moduleOverrides
  | inlineSources | compression | compressModuleIds | expose | version | releaseDate | globalModules
  | output (t : Target)
  | force | hash

def Key.Value : Key → Type
  | .inputs => Inputs
  | .workingDirectory | .baseDirectory | .rootNamespace | .version | .releaseDate => String
  | .output _ => String
  | .libraries => Assoc LibraryOptions
  | .moduleOverrides | .inlineSources | .globalModules => Assoc String
  | .compression => CompressionChoice
  | .compressModuleIds | .force | .hash => Bool
  | .expose => Expose

def get? (o : Options) : (k : Key) → Option k.Value
  | .inputs => o.inputs
  | .workingDirectory => o.workingDirectory
  | .baseDirectory => o.baseDirectory
  | .rootNamespace => o.rootNamespace
  | .libraries => o.libraries
  | .moduleOverrides => o.moduleOverrides
  | .inlineSources => o.inlineSources
  | .compression => o.compression
  | .compressModuleIds => o.compressModuleIds
  | .expose => o.expose
  | .version => o.version
  | .releaseDate => o.releaseDate
  | .globalModules => o.globalModules
  | .output t => o.outputs.path? t
  | .force => o.force
  | .hash => o.hash

theorem get?_overriddenBy (o other : Options) (k : Key) :
    (o.overriddenBy other).get? k = (other.get? k).or (o.get? k) := by
  cases k with
  | output t => cases t <;> exact Option.orElse_eq_or
  | _ => exact Option.orElse_eq_or

end Options

namespace CommandLine

open Options (Key)

def Flag.speaking : Key → List Flag
  | .workingDirectory => [.setting .workingDirectory]
  | .baseDirectory => [.setting .baseDirectory]
  | .rootNamespace => [.setting .rootNamespace]
  | .compression => [.switch .noCompress]
  | .expose => [.setting .expose]
  | .version => [.setting .version]
  | .releaseDate => [.setting .releaseDate]
  | .output .source => [.setting .output]
  | .output .minified => [.setting .output, .switch .noMinified]
  | .output .development => [.setting .output, .switch .noDevelopment]
  | .force => [.switch .force]
  | .hash => [.switch .noHash]
  | .inputs | .libraries | .moduleOverrides | .inlineSources | .compressModuleIds | .globalModules
  | .output .coverage => []

theorem Arguments.sibling?_of_off {a : Arguments} {off : Switch} (h : a.gives (.switch off))
    (suffix : String) : a.sibling? off suffix = none :=
  if_pos h

theorem Arguments.sibling?_of_not_output {a : Arguments} {off : Switch} {suffix : String}
    (h : a.output = none) : a.sibling? off suffix = none := by
  simp [sibling?, h]

theorem Arguments.get?_options_eq_none {a : Arguments} {k : Key}
    (hflags : ∀ f ∈ Flag.speaking k, ¬ a.gives f) (hinputs : k = .inputs → a.inputs = []) :
    a.options.get? k = none := by
  cases k with
  | inputs =>
      change a.inputs? = none
      rw [inputs?, hinputs rfl]
  | libraries | moduleOverrides | inlineSources | compressModuleIds | globalModules => rfl
  | workingDirectory | baseDirectory | rootNamespace | expose | version | releaseDate =>
      exact Option.not_isSome_iff_eq_none.mp (hflags _ List.mem_cons_self)
  | compression | force | hash =>
      have hoff := hflags _ List.mem_cons_self
      exact if_neg hoff
  | output t =>
      cases t with
      | coverage => rfl
      | source => exact Option.not_isSome_iff_eq_none.mp (hflags _ List.mem_cons_self)
      | minified | development =>
          exact sibling?_of_not_output
            (Option.not_isSome_iff_eq_none.mp (hflags _ List.mem_cons_self))

/-- The hash and the compression are off where a flag turns them off, and a configuration keeps its
say in all options of which no flag speaks: `o` are the options of the configuration, and `r` those
of the run. -/
structure Overrides (texts : List String) (a : Arguments) (o r : Options) : Prop where
  hash : .switch .noHash ∈ Flag.ofTexts texts → r.hash = some false
  compression : .switch .noCompress ∈ Flag.ofTexts texts → r.compression = some (.enabled false)
  kept : ∀ k, (∀ f ∈ Flag.speaking k, f ∉ Flag.ofTexts texts) → (k = .inputs → a.inputs = []) →
    r.get? k = o.get? k

/-- The same, and no bundle is made that a flag turns off. -/
structure OptOutsWin (texts : List String) (a : Arguments) (o r : Options) : Prop
    extends Overrides texts a o r where
  minified : .switch .noMinified ∈ Flag.ofTexts texts → r.outputs.minified = none
  development : .switch .noDevelopment ∈ Flag.ofTexts texts → r.outputs.development = none

section

variable {view : FileView} {texts : List String} {a : Arguments} {o : Options}

theorem optionsOf_eq (h : configured view a = .ok o) :
    optionsOf view a = .ok (o.overriddenBy a.options) := by
  rw [optionsOf, h]
  rfl

theorem output_of_off {t : Target} {off : Switch} {suffix : String}
    (hparse : Arguments.parse texts = .ok a)
    (hderived : a.options.outputs.path? t = a.sibling? off suffix)
    (hoff : .switch off ∈ Flag.ofTexts texts) :
    (o.overriddenBy a.options).outputs.path? t = o.outputs.path? t := by
  have hgiven := (Arguments.gives_iff_of_parse hparse _).mpr hoff
  have hunset : a.options.get? (.output t) = none :=
    hderived.trans (Arguments.sibling?_of_off hgiven suffix)
  have hpath := o.get?_overriddenBy a.options (.output t)
  rw [hunset] at hpath
  exact hpath

theorem overrides_of_parse (hparse : Arguments.parse texts = .ok a) :
    Overrides texts a o (o.overriddenBy a.options) := by
  have hgives := Arguments.gives_iff_of_parse hparse
  constructor
  case hash =>
    intro hoff
    have hset : a.options.get? .hash = some false := if_pos ((hgives _).mpr hoff)
    have hwins := o.get?_overriddenBy a.options .hash
    rw [hset] at hwins
    exact hwins
  case compression =>
    intro hoff
    have hset : a.options.get? .compression = some (.enabled false) := if_pos ((hgives _).mpr hoff)
    have hwins := o.get?_overriddenBy a.options .compression
    rw [hset] at hwins
    exact hwins
  case kept =>
    intro k hflags hinputs
    have hunset := Arguments.get?_options_eq_none
      (fun f hf hgiven => hflags f hf ((hgives f).mp hgiven)) hinputs
    rw [o.get?_overriddenBy, hunset]
    rfl

/-- A run has options, and in these the arguments override the configuration but for the flags that
turn a bundle off: they leave the bundle to the configuration. So all flags win just when the
configuration asks for no bundle that is turned off. -/
theorem optOutsWin_iff (hparse : Arguments.parse texts = .ok a)
    (hconfig : configured view a = .ok o) :
    ∃ r, optionsOf view a = .ok r ∧ Overrides texts a o r ∧
      (.switch .noMinified ∈ Flag.ofTexts texts → r.outputs.minified = o.outputs.minified) ∧
      (.switch .noDevelopment ∈ Flag.ofTexts texts →
        r.outputs.development = o.outputs.development) ∧
      (OptOutsWin texts a o r ↔
        (.switch .noMinified ∈ Flag.ofTexts texts → o.outputs.minified = none) ∧
        (.switch .noDevelopment ∈ Flag.ofTexts texts → o.outputs.development = none)) := by
  have hminified : .switch .noMinified ∈ Flag.ofTexts texts →
      (o.overriddenBy a.options).outputs.minified = o.outputs.minified :=
    output_of_off (t := .minified) hparse rfl
  have hdevelopment : .switch .noDevelopment ∈ Flag.ofTexts texts →
      (o.overriddenBy a.options).outputs.development = o.outputs.development :=
    output_of_off (t := .development) hparse rfl
  have hoverrides : Overrides texts a o (o.overriddenBy a.options) := overrides_of_parse hparse
  refine ⟨_, optionsOf_eq hconfig, hoverrides, hminified, hdevelopment, fun h => ?_, fun h => ?_⟩
  · exact ⟨fun hoff => (hminified hoff).symm.trans (h.minified hoff),
      fun hoff => (hdevelopment hoff).symm.trans (h.development hoff)⟩
  · exact ⟨hoverrides, fun hoff => (hminified hoff).trans (h.1 hoff),
      fun hoff => (hdevelopment hoff).trans (h.2 hoff)⟩

end

def configuration (o : Options) : FileView :=
  Listing.view ((∅ : Listing).insert "c.json" ⟨some o.text, 1⟩)

theorem configured_configuration (o : Options) {a : Arguments} (h : a.config = some "c.json") :
    configured (configuration o) a = .ok o := by
  have hread : (configuration o).read "c.json" = .ok o.text := by
    simp [configuration, Listing.view, Listing.read, Assoc.get?_insert]
  simp only [configured, h, hread, Options.parse_written]
  rfl

/-- The minified bundle is turned off, and none is asked for otherwise. -/
theorem optOutsWin_iff_hashed :
    let texts := ["-c", "c.json", "a.js", "-oout.js", "--no-minified", "--no-hash"]
    let o : Options := { Options.empty with
      outputs := ⟨none, none, some "a.dev.js", some "a.cov.js"⟩, hash := some true }
    ∃ a r, Arguments.parse texts = .ok a ∧ configured (configuration o) a = .ok o ∧
      optionsOf (configuration o) a = .ok r ∧ OptOutsWin texts a o r ∧
      r.outputs.minified = none ∧ r.hash = some false ∧ r.outputs.coverage = some "a.cov.js" := by
  intro texts o
  obtain ⟨a, hparse, hconfig⟩ : ∃ a, Arguments.parse texts = .ok a ∧ a.config = some "c.json" :=
    ⟨_, rfl, rfl⟩
  have hconfigured := configured_configuration o hconfig
  obtain ⟨r, hr, -, -, -, hwin⟩ := optOutsWin_iff hparse hconfigured
  have hwins : OptOutsWin texts a o r := hwin.mpr ⟨fun _ => rfl, by decide +kernel⟩
  refine ⟨a, r, hparse, hconfigured, hr, hwins, ?_, ?_, ?_⟩
  · exact hwins.minified (by decide +kernel)
  · exact hwins.hash (by decide +kernel)
  · exact hwins.kept (.output .coverage) (by simp [Flag.speaking]) (fun h => nomatch h)

/-- The development bundle is turned off, and goes where the configuration says all the same: to the
very path that the flag is there to skip. -/
theorem not_optOutsWin_development :
    let texts := ["-c", "c.json", "a.js", "-oout.js", "--no-minified", "--no-dev"]
    let o : Options := { Options.empty with outputs := ⟨none, none, some "out.dev.js", none⟩ }
    ∃ a r, Arguments.parse texts = .ok a ∧ configured (configuration o) a = .ok o ∧
      optionsOf (configuration o) a = .ok r ∧
      r.outputs.development = some (Path.sibling "out.js" "dev") ∧
      ¬ OptOutsWin texts a o r := by
  intro texts o
  obtain ⟨a, hparse, hconfig⟩ : ∃ a, Arguments.parse texts = .ok a ∧ a.config = some "c.json" :=
    ⟨_, rfl, rfl⟩
  have hconfigured := configured_configuration o hconfig
  have hoff : .switch .noDevelopment ∈ Flag.ofTexts texts := by decide +kernel
  have hskipped : Path.sibling "out.js" "dev" = "out.dev.js" := by decide +kernel
  have hdevelopment : (o.overriddenBy a.options).outputs.development = some "out.dev.js" :=
    output_of_off (t := .development) hparse rfl hoff
  refine ⟨a, _, hparse, hconfigured, optionsOf_eq hconfigured,
    hdevelopment.trans (congrArg some hskipped.symm), fun hwin => ?_⟩
  rw [hwin.development hoff] at hdevelopment
  cases hdevelopment

end CommandLine

end DefineBundle
