import DefineBundle.Options.Document
import DefineBundle.Proofs.Json.WrittenValues

/-!
# Reading written options

Options are read back from their text as they are: every field, every map with its entries in their
order, and every text. Where a value may be of several kinds, the kind that was written is the one
that is read, for no other kind has such a value.
-/
namespace DefineBundle

open Json (IsPlain Reads)

theorem Expose.reads_toJson : Reads Expose.ofJson Expose.toJson := by
  intro e
  have hvariant : variant? e.toJson = some (.ok e) := by
    cases e with
    | never => rfl
    | always => rfl
    | unlessPrivate => rfl
    | only ids =>
        have hids := Json.strings?_ofStrings ids
        rw [Json.ofStrings] at hids
        rw [toJson, Json.ofStrings, variant?, hids]
        rfl
  have hplain : IsPlain 0 e.toJson := e.isPlain_toJson (by decide)
  exact bind_eq_ok (Json.asVariant_of_isPlain hplain hvariant) rfl

theorem Expose.toJson_ne_null (e : Expose) : e.toJson ≠ .null := by
  cases e <;> exact fun h => by cases h

theorem Compression.reads_toJson : Reads Compression.ofJson Compression.toJson := by
  intro c
  have hitems : Json.setItems fields standard [.bool c.mangle, .bool c.deadCode,
      .bool c.dropConsole, .bool c.dropDebugger] = .ok (c, fields.length, []) := rfl
  exact Json.asRecord_zip (by decide) hitems (by simp)

theorem CompressionChoice.isPlain_toJson {depth : Nat} (h : depth < Json.depthLimit)
    (c : CompressionChoice) : IsPlain depth c.toJson := by
  cases c with
  | enabled isOn => exact .bool isOn
  | custom c => exact c.isPlain_toJson h

theorem CompressionChoice.reads_toJson :
    Reads CompressionChoice.ofJson CompressionChoice.toJson := by
  intro c
  have hvariant : variant? c.toJson = some c := by
    cases c with
    | enabled isOn => rfl
    | custom c =>
        have hobject : variant? c.toJson = (Compression.ofJson c.toJson).toOption.map custom := rfl
        rw [toJson, hobject, c.reads_toJson]
        rfl
  have hplain : IsPlain 0 c.toJson := c.isPlain_toJson (by decide)
  exact Json.asVariant_of_isPlain hplain hvariant

theorem CompressionChoice.toJson_ne_null (c : CompressionChoice) : c.toJson ≠ .null := by
  cases c <;> exact fun h => by cases h

theorem Inputs.isPlain_toJson {depth : Nat} (h : depth < Json.depthLimit) (i : Inputs) :
    IsPlain depth i.toJson := by
  cases i with
  | one p => exact .string p
  | many ps => exact .ofStrings h ps

theorem Inputs.reads_toJson : Reads Inputs.ofJson Inputs.toJson := by
  intro i
  have hvariant : variant? i.toJson = some i := by
    cases i with
    | one p => rfl
    | many ps =>
        have hlist : variant? (Json.ofStrings ps) = (Json.strings? (Json.ofStrings ps)).map many :=
          rfl
        rw [toJson, hlist, Json.strings?_ofStrings]
        rfl
  have hplain : IsPlain 0 i.toJson := i.isPlain_toJson (by decide)
  exact Json.asVariant_of_isPlain hplain hvariant

theorem Inputs.toJson_ne_null (i : Inputs) : i.toJson ≠ .null := by
  cases i <;> exact fun h => by cases h

theorem LibraryOptions.isPlain_toJson {depth : Nat} (h : depth + 1 < Json.depthLimit)
    (l : LibraryOptions) : IsPlain depth l.toJson := by
  refine .object (by omega) ?_
  simp only [List.forall_mem_cons, List.not_mem_nil, false_implies, implies_true, and_true]
  exact ⟨.string _, .ofOption .string _, .ofOption (fun e => e.isPlain_toJson h) _⟩

section
open Json (asOptional ofOption ofAssoc string_injective)

theorem reads_string? : Reads (asOptional Json.asString) (ofOption .string) :=
  Json.reads_string.ofOption fun _ h => by cases h

theorem reads_path? : Reads (asOptional Json.asPath) (ofOption .string) :=
  Json.reads_path.ofOption fun _ h => by cases h

theorem reads_bool? : Reads (asOptional Json.asBool) (ofOption .bool) :=
  Json.reads_bool.ofOption fun _ h => by cases h

theorem reads_expose? : Reads (asOptional Expose.ofJson) (ofOption Expose.toJson) :=
  Expose.reads_toJson.ofOption Expose.toJson_ne_null

theorem reads_compression? :
    Reads (asOptional CompressionChoice.ofJson) (ofOption CompressionChoice.toJson) :=
  CompressionChoice.reads_toJson.ofOption CompressionChoice.toJson_ne_null

theorem reads_inputs? : Reads (asOptional Inputs.ofJson) (ofOption Inputs.toJson) :=
  Inputs.reads_toJson.ofOption Inputs.toJson_ne_null

theorem reads_texts? : Reads (asOptional Options.asTexts) (ofOption (ofAssoc .string)) :=
  Json.reads_string.ofAssoc.ofOption fun _ h => by cases h

theorem LibraryOptions.reads_toJson : Reads LibraryOptions.ofJson LibraryOptions.toJson := by
  intro l
  have hitems : Json.setItems fields ⟨"", none, none⟩ [.string l.baseDirectory,
      ofOption .string l.rootNamespace, ofOption Expose.toJson l.expose] =
        .ok (l, fields.length, []) :=
    Json.setItems_cons rfl <| Json.setItems_cons (Json.bind_reads reads_string? _) <|
      Json.setItems_cons (Json.bind_reads reads_expose? _) rfl
  exact Json.asRecord_zip (by decide) hitems (by decide)

theorem reads_libraries? : Reads (asOptional (Json.asMap LibraryOptions.ofJson))
    (ofOption (ofAssoc LibraryOptions.toJson)) :=
  LibraryOptions.reads_toJson.ofAssoc.ofOption fun _ h => by cases h

end

namespace Options

theorem isPlain_toJson (o : Options) : IsPlain 0 o.toJson := by
  have hlow : 0 + 1 < Json.depthLimit := by decide
  have htexts : ∀ m : Assoc String, IsPlain (0 + 1) (Json.ofAssoc .string m) :=
    .ofAssoc hlow .string
  have hlibraries : ∀ m : Assoc LibraryOptions,
      IsPlain (0 + 1) (Json.ofAssoc LibraryOptions.toJson m) :=
    .ofAssoc hlow fun l => l.isPlain_toJson (by decide)
  refine .object (by decide) ?_
  simp only [List.forall_mem_cons, List.not_mem_nil, false_implies, implies_true, and_true]
  exact ⟨.ofOption (fun i => i.isPlain_toJson hlow) _, .ofOption .string _, .ofOption .string _,
    .ofOption .string _, .ofOption hlibraries _, .ofOption htexts _, .ofOption htexts _,
    .ofOption (fun c => c.isPlain_toJson hlow) _, .ofOption .bool _,
    .ofOption (fun e => e.isPlain_toJson hlow) _, .ofOption .string _, .ofOption .string _,
    .ofOption htexts _, .ofOption .string _, .ofOption .string _, .ofOption .string _,
    .ofOption .string _, .ofOption .bool _, .ofOption .bool _⟩

def values (o : Options) : List Json :=
  [Json.ofOption Inputs.toJson o.inputs, Json.ofOption .string o.workingDirectory,
    Json.ofOption .string o.baseDirectory, Json.ofOption .string o.rootNamespace,
    Json.ofOption (Json.ofAssoc LibraryOptions.toJson) o.libraries,
    Json.ofOption (Json.ofAssoc .string) o.moduleOverrides,
    Json.ofOption (Json.ofAssoc .string) o.inlineSources,
    Json.ofOption CompressionChoice.toJson o.compression,
    Json.ofOption .bool o.compressModuleIds, Json.ofOption Expose.toJson o.expose,
    Json.ofOption .string o.version, Json.ofOption .string o.releaseDate,
    Json.ofOption (Json.ofAssoc .string) o.globalModules,
    Json.ofOption .string o.outputs.source, Json.ofOption .string o.outputs.minified,
    Json.ofOption .string o.outputs.development, Json.ofOption .string o.outputs.coverage,
    Json.ofOption .bool o.force, Json.ofOption .bool o.hash]

theorem toJson_eq_zip (o : Options) :
    o.toJson = .object ((fields.map Json.Field.name).zip o.values) true :=
  rfl

theorem setItems_values (o : Options) :
    Json.setItems fields empty o.values = .ok (o, fields.length, []) :=
  Json.setItems_cons (Json.bind_reads reads_inputs? _) <|
  Json.setItems_cons (Json.bind_reads reads_path? _) <|
  Json.setItems_cons (Json.bind_reads reads_path? _) <|
  Json.setItems_cons (Json.bind_reads reads_string? _) <|
  Json.setItems_cons (Json.bind_reads reads_libraries? _) <|
  Json.setItems_cons (Json.bind_reads reads_texts? _) <|
  Json.setItems_cons (Json.bind_reads reads_texts? _) <|
  Json.setItems_cons (Json.bind_reads reads_compression? _) <|
  Json.setItems_cons (Json.bind_reads reads_bool? _) <|
  Json.setItems_cons (Json.bind_reads reads_expose? _) <|
  Json.setItems_cons (Json.bind_reads reads_string? _) <|
  Json.setItems_cons (Json.bind_reads reads_string? _) <|
  Json.setItems_cons (Json.bind_reads reads_texts? _) <|
  Json.setItems_cons (Json.bind_reads reads_path? _) <|
  Json.setItems_cons (Json.bind_reads reads_path? _) <|
  Json.setItems_cons (Json.bind_reads reads_path? _) <|
  Json.setItems_cons (Json.bind_reads reads_path? _) <|
  Json.setItems_cons (Json.bind_reads reads_bool? _) <|
  Json.setItems_cons (Json.bind_reads reads_bool? _) rfl

theorem reads_toJson : Reads ofJson toJson := by
  intro o
  rw [toJson_eq_zip]
  exact Json.asRecord_zip (by decide) o.setItems_values (by simp)

/-- Options are read back from their text as they were written. -/
theorem parse_written (o : Options) : parse o.text = .ok o := by
  rw [parse, Json.decode, text, Json.parse_text o.isPlain_toJson]
  exact bind_eq_ok (o.reads_toJson) rfl

end Options

end DefineBundle
