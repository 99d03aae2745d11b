import DefineBundle.Proofs.Build.Repeating

/-!
# Builds and their past

A bundler keeps a cache from one build to the next, also when a build fails half-way. But every
build starts by forgetting it, so whatever was built before, and however the files have changed
since, a build comes to what a new bundler would come to.
-/
namespace DefineBundle.Bundler

variable {σ : Type} {fs : FileSystem σ}

/-- A bundler is asked for a build, or the files are changed in whatever way. -/
inductive Event (σ : Type)
  | build (writes : Bool)
  | edit (change : σ → σ)

/-- A build that has taken place, with the files that it found. -/
structure Entry (σ : Type) where
  writes : Bool
  files : σ
  finished : Finished σ

/-- The builds of one bundler, each with what the ones before it have left behind. -/
def history (fs : FileSystem σ) (b : Bundler) (files : σ) : List (Event σ) → List (Entry σ)
  | [] => []
  | .edit change :: events => history fs b (change files) events
  | .build writes :: events =>
      let finished := b.build fs writes files
      ⟨writes, files, finished⟩ :: history fs finished.bundler finished.files events

/-- Bundlers with the same settings and tools build the same, whatever they have in their caches. -/
theorem build_congr {b b' : Bundler} (hs : b'.settings = b.settings) (ht : b'.tools = b.tools)
    (writes : Bool) (files : σ) : b'.build fs writes files = b.build fs writes files := by
  obtain ⟨settings, tools, cache⟩ := b
  obtain ⟨settings', tools', cache'⟩ := b'
  obtain rfl : settings' = settings := hs
  obtain rfl : tools' = tools := ht
  have hclear : cache'.clear = cache.clear := rfl
  simp only [build, hclear, finish, deliver]

/-- What a history leaves in the cache has no say in its next build. -/
theorem finished_of_mem_history {b fresh : Bundler} (hs : fresh.settings = b.settings)
    (ht : fresh.tools = b.tools) (events : List (Event σ)) (files : σ) :
    ∀ e ∈ history fs b files events, e.finished = fresh.build fs e.writes e.files := by
  induction events generalizing b files with
  | nil => exact fun e he => absurd he List.not_mem_nil
  | cons event events ih =>
      intro e he
      cases event with
      | edit change => exact ih hs ht (change files) e he
      | build writes =>
          rcases List.mem_cons.mp he with rfl | he
          · exact build_congr hs.symm ht.symm writes files
          · -- the bundler that the build leaves still has the settings and the tools
            obtain ⟨hsettings, htools⟩ := build_bundler fs b writes files
            exact ih (hs.trans hsettings.symm) (ht.trans htools.symm) _ e he

/-- Every build of a history is over as it would be for a new bundler that has the same options and
tools and is run on the files as they stand then: with the same result, the same report and the same
files. -/
theorem finished_eq_build {o : Options} {current : String} {b : Bundler}
    (hs : o.settings current = .ok b.settings) (events : List (Event σ)) (files : σ) :
    ∃ fresh, ofOptions current b.tools o = .ok fresh ∧
      ∀ e ∈ history fs b files events, e.finished = fresh.build fs e.writes e.files :=
  ⟨⟨b.settings, b.tools, .empty⟩, by rw [ofOptions, hs],
    finished_of_mem_history rfl rfl events files⟩

/-- Two builds of `covering`, between which all bundles are taken away again. -/
theorem finished_eq_build_covering : ∃ b fresh,
    ofOptions "/" coveringTools covering = .ok b ∧
    ofOptions "/" b.tools covering = .ok fresh ∧
    (history Disk.fileSystem b Disk.blank
      [.build true, .edit fun _ => Disk.blank, .build true]).length = 2 ∧
    ∀ e ∈ history Disk.fileSystem b Disk.blank
        [.build true, .edit fun _ => Disk.blank, .build true],
      e.finished = fresh.build Disk.fileSystem e.writes e.files := by
  obtain ⟨s, -, hs, -⟩ := covering_settings
  have hfinished : ∃ fresh, ofOptions "/" coveringTools covering = .ok fresh ∧
      ∀ e ∈ history Disk.fileSystem ⟨s, coveringTools, .empty⟩ Disk.blank
          [.build true, .edit fun _ => Disk.blank, .build true],
        e.finished = fresh.build Disk.fileSystem e.writes e.files :=
    finished_eq_build (b := ⟨s, coveringTools, .empty⟩) hs _ _
  obtain ⟨fresh, hfresh, hall⟩ := hfinished
  exact ⟨⟨s, coveringTools, .empty⟩, fresh, by rw [ofOptions, hs], hfresh, rfl, hall⟩

end DefineBundle.Bundler
