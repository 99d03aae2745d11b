import DefineBundle.Proofs.Layout.Resolution
import Mathlib.Data.Finset.Image
import Mathlib.Data.Finset.Order
import Mathlib.Data.List.TakeWhile

/-!
# Dots and slashes

A dot and a slash both separate the segments of an id, but a namespace is compared as it is written.
So ids that differ in their separators alone have one owner and one file in every layout whose
namespaces are single segments. A namespace of several segments takes in one spelling only, unless
no id that lies in it is left for it by the libraries.
-/
namespace DefineBundle.Layout

def firstSegment (cs : List Char) : List Char :=
  cs.takeWhile fun c => !isSeparator c

theorem isSeparator_slash (c : Char) :
    isSeparator (if c == '.' then '/' else c) = isSeparator c := by
  by_cases hc : c = '.'
  · simp [hc, isSeparator]
  · simp [hc]

theorem firstSegment_slashed (cs : List Char) : firstSegment (slashed cs) = firstSegment cs := by
  induction cs with
  | nil => rfl
  | cons c cs ih =>
      unfold firstSegment slashed at *
      rw [List.map_cons, List.takeWhile_cons, List.takeWhile_cons, isSeparator_slash]
      cases hc : isSeparator c with
      | true => rfl
      | false =>
          have hdot : ¬ (c == '.') = true := by
            rw [beq_iff_eq]
            rintro rfl
            cases hc
          rw [ih, if_neg hdot]

theorem firstSegment_append {as : List Char} (h : ∃ c ∈ as, isSeparator c = true)
    (bs : List Char) : firstSegment (as ++ bs) = firstSegment as := by
  induction as with
  | nil => simp at h
  | cons a as ih =>
      unfold firstSegment at *
      rw [List.cons_append, List.takeWhile_cons, List.takeWhile_cons]
      split
      · rename_i ha
        obtain ⟨c, hc, hsep⟩ := h
        rcases List.mem_cons.mp hc with rfl | hc
        · simp [hsep] at ha
        · rw [ih ⟨c, hc, hsep⟩]
      · rfl

/-- An id lies in a namespace of one segment when that is its first. -/
theorem isWithin_iff_firstSegment {ns id : String} (h : Undivided ns) :
    isWithin ns id = true ↔ firstSegment id.toList = ns.toList := by
  rw [isWithin_iff]
  constructor
  · rintro ⟨rest, he, hrest⟩
    have hfront : firstSegment (ns.toList ++ rest) = ns.toList ++ firstSegment rest :=
      List.takeWhile_append_of_pos fun c hc => by simp [h c hc]
    have hnone : firstSegment rest = [] := by
      cases rest with
      | nil => rfl
      | cons c rest => simp [firstSegment, hrest c rfl]
    rw [he, hfront, hnone, List.append_nil]
  · intro he
    refine ⟨id.toList.dropWhile fun c => !isSeparator c, ?_, fun c hc => ?_⟩
    · rw [← he]
      exact List.takeWhile_append_dropWhile.symm
    · have hhead := List.head?_dropWhile_not (fun c => !isSeparator c) id.toList
      rw [hc] at hhead
      simpa using hhead

theorem Undivided.eq_of_slashed_eq {ns : String} (h : Undivided ns) {cs : List Char}
    (he : slashed cs = ns.toList) : cs = ns.toList := by
  have hdot : '.' ∉ cs := by
    intro hmem
    have hslash : '/' ∈ slashed cs := List.mem_map.mpr ⟨'.', hmem, rfl⟩
    exact h.slash_notMem (he ▸ hslash)
  rw [← he, slashed_of_notMem hdot]

theorem isWithin_of_below? {ns id : String} {rest : List Char} (h : below? ns id = some rest) :
    isWithin ns id = true := by
  obtain ⟨-, c, hc, he⟩ := below?_eq_some_iff.mp h
  exact isWithin_iff.mpr ⟨c :: rest, he, by simpa using hc⟩

/-- What is below a namespace of one segment is found again, up to its separators. -/
theorem exists_below?_respelled {ns id id' : String} (h : Undivided ns)
    (he : slashed id'.toList = slashed id.toList) {rest : List Char}
    (hrest : below? ns id = some rest) :
    ∃ rest', below? ns id' = some rest' ∧ slashed rest' = slashed rest := by
  obtain ⟨hne, c, hc, hid⟩ := below?_eq_some_iff.mp hrest
  rw [hid, slashed_append, slashed_cons hc, h.slashed_eq] at he
  obtain ⟨front, back, hid', hfront, hback⟩ := List.map_eq_append_iff.mp he
  obtain ⟨c', rest', rfl, hc', hrest'⟩ := List.map_eq_cons_iff.mp hback
  have hsep : isSeparator c' = true := by rw [← isSeparator_slash, hc']; rfl
  have hne' : rest' ≠ [] := by
    rintro rfl
    exact hne (List.map_eq_nil_iff.mp hrest'.symm)
  rw [h.eq_of_slashed_eq hfront] at hid'
  exact ⟨rest', below?_eq_some_iff.mpr ⟨hne', c', hsep, hid'⟩, hrest'⟩

section
variable {l : Layout} {id id' : String}

theorem namespaceFor_congr (h : l.libraryFor? id = l.libraryFor? id') :
    l.namespaceFor id = l.namespaceFor id' := by
  rw [namespaceFor, namespaceFor, h]

theorem baseFor_congr (h : l.libraryFor? id = l.libraryFor? id') :
    l.baseFor id = l.baseFor id' := by
  rw [baseFor, baseFor, h]

/-- Libraries named by single segments are told apart by the first segment of an id. -/
theorem libraryFor?_eq_of_firstSegment_eq (h : ∀ e ∈ l.libraries.entries, Undivided e.1)
    (he : firstSegment id.toList = firstSegment id'.toList) :
    l.libraryFor? id = l.libraryFor? id' := by
  refine libraryFor?_congr fun e hmem => ?_
  rw [Bool.eq_iff_iff, isWithin_iff_firstSegment (h e hmem),
    isWithin_iff_firstSegment (h e hmem), he]

end

/-- The libraries are named by single segments, and a root namespace that applies to itself is a
single segment. -/
structure HasSingleSegments (l : Layout) : Prop where
  library : ∀ e ∈ l.libraries.entries, Undivided e.1
  root : ∀ ns, l.namespaceFor ns = some ns → Undivided ns

/-- Ids without paths of their own that differ in their separators alone have one owner and one
file, and both belong into the bundle or neither does. -/
def SeparatesAlike (l : Layout) : Prop :=
  ∀ id id', slashed id'.toList = slashed id.toList → l.overrides.get? id = none →
    l.overrides.get? id' = none →
    l.libraryFor? id' = l.libraryFor? id ∧ l.includes id' = l.includes id ∧
      l.pathOf id' = l.pathOf id

namespace HasSingleSegments

variable {l : Layout} {id id' ns : String}

theorem libraryFor?_eq (h : l.HasSingleSegments) (he : slashed id'.toList = slashed id.toList) :
    l.libraryFor? id' = l.libraryFor? id :=
  libraryFor?_eq_of_firstSegment_eq h.library
    (by rw [← firstSegment_slashed, he, firstSegment_slashed])

/-- A root namespace of several segments has one first segment with the ids that lie in it, so it
would apply to itself. -/
theorem undivided_of_isWithin (h : l.HasSingleSegments) (hns : l.namespaceFor id = some ns)
    (hid : isWithin ns id = true) : Undivided ns := by
  by_contra hdivided
  have hsep : ∃ c ∈ ns.toList, isSeparator c = true := by simpa [Undivided] using hdivided
  obtain ⟨rest, he, -⟩ := isWithin_iff.mp hid
  have hfirst : firstSegment id.toList = firstSegment ns.toList := by
    rw [he, firstSegment_append hsep]
  have howner := libraryFor?_eq_of_firstSegment_eq h.library hfirst
  exact hdivided (h.root ns (namespaceFor_congr howner ▸ hns))

theorem isWithin_respelled (h : l.HasSingleSegments)
    (he : slashed id'.toList = slashed id.toList) (hns : l.namespaceFor id = some ns)
    (hid : isWithin ns id = true) : isWithin ns id' = true := by
  have hundivided := h.undivided_of_isWithin hns hid
  rw [isWithin_iff_firstSegment hundivided] at hid ⊢
  rw [← hid, ← firstSegment_slashed, he, firstSegment_slashed]

theorem slashed_remainder (h : l.HasSingleSegments)
    (he : slashed id'.toList = slashed id.toList) :
    slashed (l.remainder id') = slashed (l.remainder id) := by
  have hspace := namespaceFor_congr (h.libraryFor?_eq he)
  cases hns : l.namespaceFor id with
  | none => simpa [remainder, hspace, hns] using he
  | some ns =>
      rw [hns] at hspace
      cases hb : below? ns id with
      | some rest =>
          have hundivided := h.undivided_of_isWithin hns (isWithin_of_below? hb)
          obtain ⟨rest', hb', hrest⟩ := exists_below?_respelled hundivided he hb
          simpa [remainder, hspace, hns, hb, hb'] using hrest
      | none =>
          have hb' : below? ns id' = none := by
            by_contra hsome
            obtain ⟨rest', hb'⟩ := Option.ne_none_iff_exists'.mp hsome
            have hundivided := h.undivided_of_isWithin hspace (isWithin_of_below? hb')
            obtain ⟨rest, hrest, -⟩ := exists_below?_respelled hundivided he.symm hb'
            rw [hb] at hrest
            cases hrest
          simpa [remainder, hspace, hns, hb, hb'] using he

theorem includes_eq (h : l.HasSingleSegments) (he : slashed id'.toList = slashed id.toList)
    (hid : l.overrides.get? id = none) (hid' : l.overrides.get? id' = none) :
    l.includes id' = l.includes id := by
  have howner := h.libraryFor?_eq he
  rw [includes, includes, howner]
  cases hlib : l.libraryFor? id with
  | some e => rfl
  | none =>
      have hspace : l.namespaceFor id = l.rootNamespace := by rw [namespaceFor, hlib]
      have hspace' : l.namespaceFor id' = l.rootNamespace := by rw [namespaceFor, howner, hlib]
      cases hroot : l.rootNamespace with
      | none => simp
      | some ns =>
          rw [hroot] at hspace hspace'
          have hsame : isWithin ns id' = isWithin ns id := Bool.eq_iff_iff.mpr
            ⟨h.isWithin_respelled he.symm hspace', h.isWithin_respelled he hspace⟩
          simp [Assoc.contains, hid, hid', hsame]

theorem separatesAlike (h : l.HasSingleSegments) : l.SeparatesAlike := by
  intro id id' he hid hid'
  have howner := h.libraryFor?_eq he
  refine ⟨howner, h.includes_eq he hid hid', ?_⟩
  have hfile : fileOf (l.remainder id') = fileOf (l.remainder id) :=
    congrArg (fun cs => String.ofList cs ++ ".js") (h.slashed_remainder he)
  rw [pathOf_eq_normalize hid, pathOf_eq_normalize hid', baseFor_congr howner, hfile]

end HasSingleSegments

/-- A text with slashes for dots and dots for slashes. -/
def swapped (cs : List Char) : List Char :=
  cs.map fun c => if c == '.' then '/' else if c == '/' then '.' else c

theorem slashed_swapped (cs : List Char) : slashed (swapped cs) = slashed cs := by
  rw [slashed, swapped, List.map_map]
  refine List.map_congr_left fun c _ => ?_
  by_cases hdot : c = '.'
  · simp [hdot]
  · by_cases hslash : c = '/'
    · simp [hslash]
    · simp [hdot, hslash]

theorem swapped_ne {cs : List Char} (h : ∃ c ∈ cs, isSeparator c = true) : swapped cs ≠ cs := by
  intro he
  obtain ⟨c, hc, hsep⟩ := h
  have hfix := List.map_inj_left.mp (he.trans (List.map_id cs).symm) c hc
  rcases isSeparator_iff.mp hsep with rfl | rfl <;> cases hfix

def child (ns : List Char) (name : String) : String :=
  String.ofList (ns ++ '.' :: name.toList)

theorem toList_child (ns : List Char) (name : String) :
    (child ns name).toList = ns ++ '.' :: name.toList :=
  String.toList_ofList

theorem isWithin_child (ns name : String) : isWithin ns (child ns.toList name) = true :=
  isWithin_iff.mpr ⟨_, toList_child _ _, by simp [isSeparator]⟩

theorem below?_child (ns : String) {name : String} (h : name ≠ "") :
    below? ns (child ns.toList name) = some name.toList :=
  below?_eq_some_iff.mpr ⟨by simpa using h, '.', rfl, toList_child _ _⟩

/-- The other spelling of a namespace of several segments is no part of it. -/
theorem isWithin_child_swapped {ns : String} (h : ∃ c ∈ ns.toList, isSeparator c = true)
    (name : String) : isWithin ns (child (swapped ns.toList) name) = false := by
  rw [Bool.eq_false_iff]
  intro hwithin
  obtain ⟨rest, he, -⟩ := isWithin_iff.mp hwithin
  rw [toList_child] at he
  exact swapped_ne h (List.append_inj_left he (by simp [swapped]))

/-- A namespace of one segment is not all of an id that lies below another one. -/
theorem exists_eq_of_isWithin_child {ns name : String} {cs : List Char} (h : Undivided ns)
    (hwithin : isWithin ns (child cs name) = true) :
    ∃ c rest, isSeparator c = true ∧ (child cs name).toList = ns.toList ++ c :: rest := by
  obtain ⟨rest, he, hrest⟩ := isWithin_iff.mp hwithin
  cases rest with
  | nil =>
      refine absurd ?_ h.dot_notMem
      rw [List.append_nil, toList_child] at he
      simp [← he]
  | cons c rest => exact ⟨c, rest, hrest c rfl, he⟩

theorem slashed_child_swapped (ns : List Char) (name : String) :
    slashed (child (swapped ns) name).toList = slashed (child ns name).toList := by
  simp only [toList_child, slashed_append, slashed_swapped]

/-- Some name is so long that no id below which it is has a path of its own. -/
theorem exists_free_name (m : Assoc String) :
    ∃ name, name ≠ "" ∧ Undivided name ∧ ∀ ns, m.get? (child ns name) = none := by
  obtain ⟨bound, hbound⟩ := ((m.entries.map Prod.fst).toFinset.image String.length).exists_le
  refine ⟨String.ofList (List.replicate (bound + 1) 'z'), ?_, ?_, fun ns => ?_⟩
  · simp [← String.toList_inj]
  · intro c hc
    rw [String.toList_ofList] at hc
    rw [List.eq_of_mem_replicate hc]
    rfl
  · have hkey : child ns (String.ofList (List.replicate (bound + 1) 'z')) ∉
        m.entries.map Prod.fst := by
      intro hmem
      have hle := hbound _ (Finset.mem_image_of_mem _ (List.mem_toFinset.mpr hmem))
      rw [← String.length_toList, toList_child] at hle
      simp at hle
      omega
    rw [← Assoc.contains_iff, Assoc.contains] at hkey
    simpa using hkey

namespace SeparatesAlike

variable {l : Layout}

/-- The owner of an id below a library has a name as long as the library's, so an id below another
spelling of the library is not among the owner's. -/
theorem undivided_library (h : l.SeparatesAlike) {e : String × Library}
    (he : e ∈ l.libraries.entries) : Undivided e.1 := by
  by_contra hdivided
  have hsep : ∃ c ∈ e.1.toList, isSeparator c = true := by simpa [Undivided] using hdivided
  obtain ⟨name, -, -, hfree⟩ := exists_free_name l.overrides
  obtain ⟨howner, -, -⟩ := h _ _ (slashed_child_swapped e.1.toList name) (hfree _) (hfree _)
  obtain ⟨owner, hchild⟩ := exists_libraryFor? he (isWithin_child e.1 name)
  obtain ⟨-, hwithin, hlongest⟩ := libraryFor?_spec hchild
  obtain ⟨-, hwithin', -⟩ := libraryFor?_spec (howner.trans hchild)
  have hlength := hlongest e he (isWithin_child e.1 name)
  rw [← String.length_toList, ← String.length_toList] at hlength
  obtain ⟨rest, hrest, -⟩ := isWithin_iff.mp hwithin
  obtain ⟨rest', hrest', -⟩ := isWithin_iff.mp hwithin'
  have hfront : ∀ {cs more : List Char}, cs.length = e.1.toList.length →
      cs ++ '.' :: name.toList = owner.1.toList ++ more →
      cs = owner.1.toList.take e.1.toList.length := by
    intro cs more hcs heq
    have htake := congrArg (List.take e.1.toList.length) heq
    rwa [List.take_left' hcs, List.take_append_of_le_length hlength] at htake
  rw [toList_child] at hrest hrest'
  exact swapped_ne hsep ((hfront (by simp [swapped]) hrest').trans (hfront rfl hrest).symm)

/-- An id below another spelling of a root namespace keeps all its segments. Without a library it
is left out of the bundle; with one its file has more names on the way. -/
theorem undivided_root (h : l.SeparatesAlike) (hnamed : ∀ e ∈ l.libraries.entries, e.1 ≠ "")
    {ns : String} (hns : l.namespaceFor ns = some ns) : Undivided ns := by
  by_contra hdivided
  have hsep : ∃ c ∈ ns.toList, isSeparator c = true := by simpa [Undivided] using hdivided
  obtain ⟨name, hname, hundivided, hfree⟩ := exists_free_name l.overrides
  obtain ⟨howner, hincludes, hpath⟩ :=
    h _ _ (slashed_child_swapped ns.toList name) (hfree _) (hfree _)
  have hself : l.libraryFor? (child ns.toList name) = l.libraryFor? ns :=
    libraryFor?_eq_of_firstSegment_eq (fun e he => h.undivided_library he)
      (by rw [toList_child, firstSegment_append hsep])
  have hspace := (namespaceFor_congr hself).trans hns
  have hspace' := (namespaceFor_congr howner).trans hspace
  cases hlib : l.libraryFor? (child ns.toList name) with
  | none =>
      have hroot : l.rootNamespace = some ns := by rwa [namespaceFor, hlib] at hspace
      rw [includes, includes, howner, hlib] at hincludes
      simp [Assoc.contains, hfree, hroot, isWithin_child, isWithin_child_swapped hsep] at hincludes
  | some e =>
      obtain ⟨hentry, hwithin, -⟩ := libraryFor?_spec (howner.trans hlib)
      have hlibrary := h.undivided_library hentry
      have hremainder : l.remainder (child ns.toList name) = name.toList := by
        simp [remainder, hspace, below?_child ns hname]
      have hremainder' : l.remainder (child (swapped ns.toList) name) =
          (child (swapped ns.toList) name).toList := by
        have hnone : below? ns (child (swapped ns.toList) name) = none := by
          by_contra hsome
          obtain ⟨rest, hrest⟩ := Option.ne_none_iff_exists'.mp hsome
          simpa [isWithin_child_swapped hsep] using isWithin_of_below? hrest
        simp [remainder, hspace', hnone]
      obtain ⟨c, cs, hc, hid⟩ := exists_eq_of_isWithin_child hlibrary hwithin
      have hapart : startsApart name.toList = false := by
        simpa using hundivided.startsApart_append hname []
      have hapart' : startsApart (child (swapped ns.toList) name).toList = false := by
        rw [hid]
        exact hlibrary.startsApart_append (hnamed e hentry) _
      rw [pathOf_eq_normalize (hfree _), pathOf_eq_normalize (hfree _), baseFor_congr howner,
        hremainder, hremainder'] at hpath
      have hfiles := fileNames_eq_of_normalize_eq hapart' hapart hpath
      rw [hid, fileNames_cons hlibrary (hnamed e hentry) hc, fileNames_of_undivided hundivided,
        List.cons.injEq] at hfiles
      exact fileNames_ne_nil cs hfiles.2

end SeparatesAlike

/-- In a layout without a nameless library, ids without paths of their own that differ in their
separators alone have one owner and one file, and belong into the bundle together, just when the
libraries are named by single segments and so is every root namespace that applies to itself. -/
theorem separatesAlike_iff {l : Layout} (hnamed : ∀ e ∈ l.libraries.entries, e.1 ≠ "") :
    l.SeparatesAlike ↔ l.HasSingleSegments :=
  ⟨fun h => ⟨fun _ he => h.undivided_library he, fun _ hns => h.undivided_root hnamed hns⟩,
    fun h => h.separatesAlike⟩

/-- A build whose root namespace lies in a library. -/
def shadowedLayout : Layout :=
  ⟨"/p/src", some "ephox.katamari", Assoc.ofList [("ephox", ⟨"/p/lib", none, .always⟩)], ∅⟩

/-- The library owns all ids of the root namespace, so it never counts that this is written in one
of two ways. -/
theorem separatesAlike_iff_shadowed : (∀ e ∈ shadowedLayout.libraries.entries, e.1 ≠ "") ∧
    shadowedLayout.SeparatesAlike ∧
    shadowedLayout.pathOf "ephox.katamari.Arr" = "/p/lib/ephox/katamari/Arr.js" := by
  have hnamed : ∀ e ∈ shadowedLayout.libraries.entries, e.1 ≠ "" := by decide
  refine ⟨hnamed, (separatesAlike_iff hnamed).mpr ⟨by decide, fun ns hns => ?_⟩, by decide⟩
  rcases namespaceFor_cases shadowedLayout ns with hroot | ⟨e, he, hroot⟩
  · obtain rfl : ns = "ephox.katamari" := Option.some.inj (hns.symm.trans hroot)
    exact absurd hns (by decide)
  · obtain rfl : e = ("ephox", ⟨"/p/lib", none, .always⟩) := List.mem_singleton.mp he
    rw [hns] at hroot
    cases hroot

/-- A build whose root namespace has two segments. -/
def dividedLayout : Layout :=
  ⟨"/p/src", some "ephox.katamari", ∅, ∅⟩

/-- With slashes an id of the root namespace is found elsewhere, and left out of the bundle. -/
theorem not_separatesAlike_divided : ¬ dividedLayout.SeparatesAlike ∧
    slashed "ephox/katamari/Arr".toList = slashed "ephox.katamari.Arr".toList ∧
    dividedLayout.pathOf "ephox.katamari.Arr" = "/p/src/Arr.js" ∧
    dividedLayout.pathOf "ephox/katamari/Arr" = "/p/src/ephox/katamari/Arr.js" ∧
    dividedLayout.includes "ephox.katamari.Arr" = true ∧
    dividedLayout.includes "ephox/katamari/Arr" = false := by
  have hdots : dividedLayout.includes "ephox.katamari.Arr" = true := by decide
  have hslashes : dividedLayout.includes "ephox/katamari/Arr" = false := by decide
  refine ⟨fun h => ?_, by decide, by decide, by decide, hdots, hslashes⟩
  obtain ⟨-, hincludes, -⟩ := h "ephox.katamari.Arr" "ephox/katamari/Arr" (by decide) rfl rfl
  rw [hdots, hslashes] at hincludes
  cases hincludes

end DefineBundle.Layout
