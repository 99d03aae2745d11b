import DefineBundle.Proofs.Files.Lookup

/-!
# Two paths to one file

A disk on which one output is a symbolic link to another: what is written at either path is read at
both. Settings take the two for different outputs, because they compare paths by their text alone.
-/
namespace DefineBundle.Disk

/-- A link in the root directory to a file beside it, which may still be missing. -/
def linked (name : String) : Option String → Disk
  | none => ⟨[([name], .link "/a.dev.js")], "/", 1⟩
  | some text => ⟨[(["a.dev.js"], .file ⟨some text, 1⟩), ([name], .link "/a.dev.js")], "/", 1⟩

def linkNames : List String :=
  ["a.cov.js", "a.src.js"]

section
variable {name : String} (hname : name ∈ linkNames) (content : Option String)
include hname

omit hname in
theorem current_linked : (linked name content).current = "/" := by
  cases content with
  | none => rfl
  | some text => rfl

theorem node?_linked (l : Location) : (linked name content).node? l =
    if l = [] then some .directory
    else if l = ["a.dev.js"] then content.map fun text => .file ⟨some text, 1⟩
    else if l = [name] then some (.link "/a.dev.js") else none := by
  have hne : name ≠ "a.dev.js" := fun he => absurd (he ▸ hname) (by decide)
  by_cases hroot : l = []
  · rw [if_pos hroot, hroot]
    rfl
  · rw [if_neg hroot]
    by_cases hfile : l = ["a.dev.js"]
    · cases content <;> simp [linked, node?, entryAt?, Entry.file, Entry.node, hfile, hne]
    · by_cases hlink : l = [name]
      · cases content <;>
          simp [linked, node?, entryAt?, Entry.link, Entry.node, hlink, hne, hne.symm]
      · have hfile' : ¬ ["a.dev.js"] = l := fun h => hfile h.symm
        have hlink' : ¬ [name] = l := fun h => hlink h.symm
        cases content <;> simp [linked, node?, entryAt?, hroot, hfile, hfile', hlink, hlink']

theorem find_linked {path : String} (hpath : path = "/a.dev.js" ∨ path = "/" ++ name) :
    (linked name content).find true path = .ok ["a.dev.js"] := by
  have htarget : names "/a.dev.js" = ["", "a.dev.js"] := by decide
  have hshort : ¬ nameLimit < Text.byteLength "a.dev.js" := by decide
  rcases hpath with rfl | rfl
  · have hnames : names (Path.join "/" "/a.dev.js") = ["", "a.dev.js"] := by decide
    have hfault : pathFault? "/a.dev.js" = none := by decide
    simp [find, hfault, current_linked, hnames, locate, node?_linked hname, hshort]
  · have hfault : pathFault? ("/" ++ name) = none := by
      revert name
      decide
    have hnames : names (Path.join "/" ("/" ++ name)) = ["", name] := by
      revert name
      decide
    have hlink : ¬ nameLimit < Text.byteLength name := by
      revert name
      decide
    have hproper : name ≠ "" ∧ name ≠ "." ∧ name ≠ ".." ∧ name ≠ "a.dev.js" := by
      revert name
      decide
    obtain ⟨hempty, hdot, hup, hne⟩ := hproper
    have habsolute : Path.isAbsolute "/a.dev.js" = true := by decide
    simp [find, hfault, current_linked, hnames, locate, node?_linked hname, hshort, hlink, hempty,
        hdot, hup, hne, habsolute, htarget, linkLimit]

theorem writeText_linked {path : String} (hpath : path = "/a.dev.js" ∨ path = "/" ++ name)
    (text : String) :
    writeText path text (linked name content) = (.ok (), linked name (some text)) := by
  have hparent : Path.parent path = "/" := by
    rcases hpath with rfl | rfl
    · decide
    · revert name
      decide
  have hfind := find_linked hname content hpath
  have hne : name ≠ "a.dev.js" := fun he => absurd (he ▸ hname) (by decide)
  have hdirectory : (linked name content).node? ["a.dev.js"] ≠ some .directory := by
    simp [node?_linked hname]
  have hdevice : ∀ v, (linked name content).node? ["a.dev.js"] ≠ some (.device v) := by
    simp [node?_linked hname]
  have hstore : (linked name content).store ["a.dev.js"] ⟨some text, (linked name content).now⟩ =
      linked name (some text) := by
    have hentries : ∀ e ∈ (linked name content).entries, e.2.number? = none := by
      cases content <;> simp [linked, Entry.file, Entry.link, Entry.number?]
    rw [store_of_number?_eq_none (number?_eq_none hentries _)]
    cases content <;> simp [put, linked, Entry.file, Entry.link, hne]
  rw [writeText_of_find hparent hfind hdirectory hdevice, hstore]

theorem read_linked {path : String} (hpath : path = "/a.dev.js" ∨ path = "/" ++ name)
    (text : String) :
    (view (linked name (some text))).isFile path = true ∧
      (view (linked name (some text))).read path = .ok text := by
  have hfile : (linked name (some text)).file? path = .ok ⟨some text, 1⟩ :=
    file?_eq_ok_iff.mpr ⟨_, find_linked hname (some text) hpath, rfl⟩
  exact ⟨isFile_iff.mpr ⟨_, hfile⟩, read_of_file? hfile rfl⟩

theorem isFile_linked_module : (view (linked name content)).isFile "/a.js" = false := by
  have hnames : names (Path.join "/" "/a.js") = ["", "a.js"] := by decide
  have hfault : pathFault? "/a.js" = none := by decide
  have hshort : ¬ nameLimit < Text.byteLength "a.js" := by decide
  have hne : "a.js" ≠ name := fun he => absurd (he ▸ hname) (by decide)
  have hfind : (linked name content).find true "/a.js" = .ok ["a.js"] := by
    simp [find, hfault, current_linked, hnames, locate, node?_linked hname, hshort, hne]
  have hnode : (linked name content).node? ["a.js"] = none := by
    simp [node?_linked hname, hne]
  rw [Bool.eq_false_iff]
  intro hf
  obtain ⟨f, hf⟩ := isFile_iff.mp hf
  obtain ⟨l, hl, hlnode⟩ := file?_eq_ok_iff.mp hf
  obtain rfl : ["a.js"] = l := Except.ok.inj (hfind.symm.trans hl)
  rw [hnode] at hlnode
  cases hlnode

end

theorem bare_linked (name : String) : (linked name none).Bare := by
  intro e he f
  rw [List.mem_singleton.mp he]
  exact nofun

end DefineBundle.Disk
