import DefineBundle.Json.Decode
import DefineBundle.Options.Basic

/-!
# Options as a JSON document

The writing of options, with all fields in a fixed order and null for those left out, and their
reading. A field that is not known, comes twice or has a value of the wrong kind is a fault.
-/
namespace DefineBundle

open Json (Fault)

namespace Expose

/-- The choice as a value: a truth value, the word `public`, or the list of ids. -/
def toJson : Expose → Json
  | never => .bool false
  | always => .bool true
  | unlessPrivate => .string "public"
  | only ids => Json.ofStrings ids

def expectation (found : String) : String :=
  "expected \x60true\x60, \x60false\x60, \"public\" or a list of module ids, got " ++
    Text.Quoted.quote found

def variant? : Json → Option (Except Fault Expose)
  | .bool false => some (.ok never)
  | .bool true => some (.ok always)
  | .string s =>
      some (if s = "public" then .ok unlessPrivate else .error (.unusable (expectation s)))
  | .array items _ => (Json.strings? (.array items true)).map fun ids => .ok (only ids)
  | _ => none

def ofJson (j : Json) : Except Fault Expose := do
  ← Json.asVariant "RawExposeOption" variant? j

end Expose

namespace Compression

def toJson (c : Compression) : Json :=
  .object [("mangle", .bool c.mangle), ("deadCode", .bool c.deadCode),
    ("dropConsole", .bool c.dropConsole), ("dropDebugger", .bool c.dropDebugger)] true

def fields : List (Json.Field Compression) :=
  [⟨"mangle", fun c j => return { c with mangle := ← Json.asBool j }⟩,
    ⟨"deadCode", fun c j => return { c with deadCode := ← Json.asBool j }⟩,
    ⟨"dropConsole", fun c j => return { c with dropConsole := ← Json.asBool j }⟩,
    ⟨"dropDebugger", fun c j => return { c with dropDebugger := ← Json.asBool j }⟩]

/-- Reads a compression; what is left out stays as usual. -/
def ofJson (j : Json) : Except Fault Compression :=
  Json.asRecord "CompressOptions" fields [] true standard j

end Compression

namespace CompressionChoice

def toJson : CompressionChoice → Json
  | enabled isOn => .bool isOn
  | custom c => c.toJson

def variant? : Json → Option CompressionChoice
  | .bool b => some (enabled b)
  | j => (Compression.ofJson j).toOption.map custom

def ofJson (j : Json) : Except Fault CompressionChoice :=
  Json.asVariant "RawCompressOptions" variant? j

end CompressionChoice

namespace Inputs

def toJson : Inputs → Json
  | one p => .string p
  | many ps => Json.ofStrings ps

def variant? : Json → Option Inputs
  | .string s => some (one s)
  | j => (Json.strings? j).map many

def ofJson (j : Json) : Except Fault Inputs :=
  Json.asVariant "InputItem" variant? j

end Inputs

namespace LibraryOptions

def toJson (l : LibraryOptions) : Json :=
  .object [("baseDir", .string l.baseDirectory),
    ("rootNS", Json.ofOption .string l.rootNamespace),
    ("expose", Json.ofOption Expose.toJson l.expose)] true

def fields : List (Json.Field LibraryOptions) :=
  [⟨"baseDir", fun l j => return { l with baseDirectory := ← Json.asPath j }⟩,
    ⟨"rootNS", fun l j => return { l with rootNamespace := ← Json.asOptional Json.asString j }⟩,
    ⟨"expose", fun l j => return { l with expose := ← Json.asOptional Expose.ofJson j }⟩]

/-- Reads a library, which must have a directory. -/
def ofJson (j : Json) : Except Fault LibraryOptions :=
  Json.asRecord "RawLibraryOptions" fields ["baseDir"] false ⟨"", none, none⟩ j

end LibraryOptions

namespace Options

def toJson (o : Options) : Json :=
  .object [("from", Json.ofOption Inputs.toJson o.inputs),
    ("cwd", Json.ofOption .string o.workingDirectory),
    ("baseDir", Json.ofOption .string o.baseDirectory),
    ("rootNS", Json.ofOption .string o.rootNamespace),
    ("libs", Json.ofOption (Json.ofAssoc LibraryOptions.toJson) o.libraries),
    ("moduleOverrides", Json.ofOption (Json.ofAssoc .string) o.moduleOverrides),
    ("inlineSources", Json.ofOption (Json.ofAssoc .string) o.inlineSources),
    ("compress", Json.ofOption CompressionChoice.toJson o.compression),
    ("compressModuleIds", Json.ofOption .bool o.compressModuleIds),
    ("expose", Json.ofOption Expose.toJson o.expose),
    ("version", Json.ofOption .string o.version),
    ("releaseDate", Json.ofOption .string o.releaseDate),
    ("globalModules", Json.ofOption (Json.ofAssoc .string) o.globalModules),
    ("outputSource", Json.ofOption .string o.outputs.source),
    ("outputMinified", Json.ofOption .string o.outputs.minified),
    ("outputDev", Json.ofOption .string o.outputs.development),
    ("outputCoverage", Json.ofOption .string o.outputs.coverage),
    ("force", Json.ofOption .bool o.force),
    ("hash", Json.ofOption .bool o.hash)] true

def asTexts : Json → Except Fault (Assoc String) :=
  Json.asMap Json.asString

def fields : List (Json.Field Options) :=
  [⟨"from", fun o j => return { o with inputs := ← Json.asOptional Inputs.ofJson j }⟩,
    ⟨"cwd", fun o j => return { o with workingDirectory := ← Json.asOptional Json.asPath j }⟩,
    ⟨"baseDir", fun o j => return { o with baseDirectory := ← Json.asOptional Json.asPath j }⟩,
    ⟨"rootNS", fun o j => return { o with rootNamespace := ← Json.asOptional Json.asString j }⟩,
    ⟨"libs", fun o j =>
      return { o with libraries := ← Json.asOptional (Json.asMap LibraryOptions.ofJson) j }⟩,
    ⟨"moduleOverrides", fun o j =>
      return { o with moduleOverrides := ← Json.asOptional asTexts j }⟩,
    ⟨"inlineSources", fun o j => return { o with inlineSources := ← Json.asOptional asTexts j }⟩,
    ⟨"compress", fun o j =>
      return { o with compression := ← Json.asOptional CompressionChoice.ofJson j }⟩,
    ⟨"compressModuleIds", fun o j =>
      return { o with compressModuleIds := ← Json.asOptional Json.asBool j }⟩,
    ⟨"expose", fun o j => return { o with expose := ← Json.asOptional Expose.ofJson j }⟩,
    ⟨"version", fun o j => return { o with version := ← Json.asOptional Json.asString j }⟩,
    ⟨"releaseDate", fun o j => return { o with releaseDate := ← Json.asOptional Json.asString j }⟩,
    ⟨"globalModules", fun o j => return { o with globalModules := ← Json.asOptional asTexts j }⟩,
    ⟨"outputSource", fun o j =>
      return { o with outputs.source := ← Json.asOptional Json.asPath j }⟩,
    ⟨"outputMinified", fun o j =>
      return { o with outputs.minified := ← Json.asOptional Json.asPath j }⟩,
    ⟨"outputDev", fun o j =>
      return { o with outputs.development := ← Json.asOptional Json.asPath j }⟩,
    ⟨"outputCoverage", fun o j =>
      return { o with outputs.coverage := ← Json.asOptional Json.asPath j }⟩,
    ⟨"force", fun o j => return { o with force := ← Json.asOptional Json.asBool j }⟩,
    ⟨"hash", fun o j => return { o with hash := ← Json.asOptional Json.asBool j }⟩]

def ofJson (j : Json) : Except Fault Options :=
  Json.asRecord "BundlerOptions" fields [] false empty j

def text (o : Options) : String :=
  o.toJson.text

def parse (text : String) : Except Fault Options :=
  Json.decode ofJson text

end Options

end DefineBundle
