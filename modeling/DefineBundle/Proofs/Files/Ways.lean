import DefineBundle.Proofs.Files.Trees

/-!
# Ways

A look-up that succeeds has gone a way through directories and links. It goes the same way on a
disk that has these directories still and the same links, whatever else is changed.
-/
namespace DefineBundle.Disk

/-- A name that leads to an entry of a directory, within the limit. -/
structure Descends (name : String) : Prop where
  ne_empty : name ≠ ""
  ne_dot : name ≠ "."
  ne_up : name ≠ ".."
  short : Text.byteLength name ≤ nameLimit

/-- The ways of successful look-ups: the names lead from the first location to the last, through at
most so many links. -/
inductive Way (d : Disk) (follows : Bool) : Nat → Location → List String → Location → Prop
  | done {links : Nat} {l : Location} : Way d follows links l [] l
  | stay {links : Nat} {l l' : Location} {name : String} {ns : List String} :
      d.node? l = some .directory → name = "" ∨ name = "." → Way d follows links l ns l' →
      Way d follows links l (name :: ns) l'
  | up {links : Nat} {l l' : Location} {ns : List String} :
      d.node? l = some .directory → Way d follows links l.dropLast ns l' →
      Way d follows links l (".." :: ns) l'
  | unfollowed {links : Nat} {l : Location} {name target : String} :
      d.node? l = some .directory → Descends name →
      d.node? (l ++ [name]) = some (.link target) → follows = false →
      Way d follows links l [name] (l ++ [name])
  | followed {links : Nat} {l l' : Location} {name target : String} {ns : List String} :
      d.node? l = some .directory → Descends name →
      d.node? (l ++ [name]) = some (.link target) → ns ≠ [] ∨ follows = true →
      Way d follows links (if Path.isAbsolute target then [] else l) (names target ++ ns) l' →
      Way d follows (links + 1) l (name :: ns) l'
  | down {links : Nat} {l l' : Location} {name : String} {ns : List String} :
      d.node? l = some .directory → Descends name →
      (∀ target, d.node? (l ++ [name]) ≠ some (.link target)) →
      Way d follows links (l ++ [name]) ns l' → Way d follows links l (name :: ns) l'

variable {d d' d'' : Disk} {follows : Bool} {links : Nat} {l l' p ns : Location} {name : String}
  {f : StoredFile}

theorem descends_of_tests (hstay : ¬ (name == "" || name == ".") = true)
    (hup : ¬ (name == "..") = true) (hshort : ¬ nameLimit < Text.byteLength name) :
    Descends name := by
  have hproper : name ≠ "" ∧ name ≠ "." := by simpa using hstay
  exact ⟨hproper.1, hproper.2, by simpa using hup, Nat.not_lt.mp hshort⟩

theorem descends_of_isName (h : IsName name) (hshort : Text.byteLength name ≤ nameLimit) :
    Descends name where
  ne_empty := by
    rintro rfl
    exact h.proper.ne_nil rfl
  ne_dot := by
    rintro rfl
    exact h.proper.ne_dot rfl
  ne_up := h.ne_up
  short := hshort

theorem Way.of_locate (h : d.locate follows links l ns = .ok l') :
    Way d follows links l ns l' := by
  fun_induction locate d follows links l ns
  case case1 =>
    cases h
    exact .done
  case case6 links l name ns hhere hstay ih =>
    exact .stay hhere (by simpa using hstay) (ih h)
  case case7 links l name ns hhere hstay hup ih =>
    obtain rfl : name = ".." := by simpa using hup
    exact .up hhere (ih h)
  case case9 links l name ns hhere hstay hup hshort target hlink hlast =>
    obtain ⟨rfl, hunfollowed⟩ : ns = [] ∧ follows = false := by simpa using hlast
    cases h
    exact .unfollowed hhere (descends_of_tests hstay hup hshort) hlink hunfollowed
  case case11 l name ns hhere hstay hup hshort target hlink hlast links ih =>
    have hgo : ns ≠ [] ∨ follows = true := by
      by_cases hns : ns = []
      · simp_all
      · exact .inl hns
    exact .followed hhere (descends_of_tests hstay hup hshort) hlink hgo (ih h)
  case case12 links l name ns hhere hstay hup hshort hno ih =>
    exact .down hhere (descends_of_tests hstay hup hshort) hno (ih h)
  -- every other case is a refusal
  all_goals cases h

theorem Way.locate (h : Way d follows links l ns l') :
    d.locate follows links l ns = .ok l' := by
  induction h with
  | done => rw [Disk.locate]
  | stay hhere hname _ ih =>
      rw [Disk.locate.eq_def]
      simp [hhere, hname, ih]
  | up hhere _ ih =>
      rw [Disk.locate.eq_def]
      simp [hhere, ih]
  | unfollowed hhere hname hlink hunfollowed =>
      rw [Disk.locate.eq_def]
      simp [hhere, hname.ne_empty, hname.ne_dot, hname.ne_up, Nat.not_lt.mpr hname.short, hlink,
        hunfollowed]
  | @followed links l l' name target ns hhere hname hlink hgo _ ih =>
      have hlast : (ns.isEmpty && !follows) = false := by
        rcases hgo with hgo | hgo <;> simp [hgo]
      rw [Disk.locate.eq_def]
      simpa [hhere, hname.ne_empty, hname.ne_dot, hname.ne_up, Nat.not_lt.mpr hname.short, hlink,
        hlast] using ih
  | down hhere hname hno _ ih =>
      rw [Disk.locate.eq_def]
      simpa [hhere, hname.ne_empty, hname.ne_dot, hname.ne_up, Nat.not_lt.mpr hname.short, hno]
        using ih

theorem locate_eq_ok_iff :
    d.locate follows links l ns = .ok l' ↔ Way d follows links l ns l' :=
  ⟨Way.of_locate, Way.locate⟩

theorem Way.short (h : Way d follows links l ns l') :
    ∀ name ∈ ns, IsName name → Text.byteLength name ≤ nameLimit := by
  have hfirst : ∀ {name : String} {ns : List String},
      (IsName name → Text.byteLength name ≤ nameLimit) →
      (∀ n ∈ ns, IsName n → Text.byteLength n ≤ nameLimit) →
      ∀ n ∈ name :: ns, IsName n → Text.byteLength n ≤ nameLimit := fun h hs =>
    List.forall_mem_cons.mpr ⟨h, hs⟩
  induction h with
  | done => exact fun _ hn => absurd hn List.not_mem_nil
  | stay _ hstay _ ih =>
      refine hfirst (fun hname => ?_) ih
      rcases hstay with rfl | rfl
      · exact absurd rfl hname.proper.ne_nil
      · exact absurd rfl hname.proper.ne_dot
  | up _ _ ih => exact hfirst (fun hname => absurd rfl hname.ne_up) ih
  | unfollowed _ hname _ _ => exact hfirst (fun _ => hname.short) (by simp)
  | followed _ hname _ _ _ ih =>
      exact hfirst (fun _ => hname.short) fun n hn => ih n (List.mem_append_right _ hn)
  | down _ hname _ _ ih => exact hfirst (fun _ => hname.short) ih

/-- A way to a directory goes on to what is in it, but for links that are to be followed. -/
theorem Way.concat (h : Way d true links l ns p) (hp : d.node? p = some .directory)
    (hname : Descends name)
    (hno : follows = false ∨ ∀ target, d.node? (p ++ [name]) ≠ some (.link target)) :
    Way d follows links l (ns ++ [name]) (p ++ [name]) := by
  induction h with
  | @done links p =>
      by_cases hlink : ∃ target, d.node? (p ++ [name]) = some (.link target)
      · obtain ⟨target, hlink⟩ := hlink
        rcases hno with hfollows | hno
        · exact .unfollowed hp hname hlink hfollows
        · exact absurd hlink (hno target)
      · rw [not_exists] at hlink
        exact .down hp hname hlink .done
  | stay hhere hstay _ ih => exact .stay hhere hstay (ih hp hno)
  | up hhere _ ih => exact .up hhere (ih hp hno)
  | unfollowed _ _ _ hfollows => cases hfollows
  | followed hhere hfirst hlink _ _ ih =>
      have hrest := ih hp hno
      rw [List.append_assoc] at hrest
      exact .followed hhere hfirst hlink (.inl (by simp)) hrest
  | down hhere hfirst hno' _ ih => exact .down hhere hfirst hno' (ih hp hno)

/-- A way that does not end at a link is the same when links are followed. -/
theorem Way.following (h : Way d follows links l ns l')
    (hno : ∀ target, d.node? l' ≠ some (.link target)) : Way d true links l ns l' := by
  induction h with
  | done => exact .done
  | stay hhere hstay _ ih => exact .stay hhere hstay (ih hno)
  | up hhere _ ih => exact .up hhere (ih hno)
  | unfollowed _ _ hlink _ => exact absurd hlink (hno _)
  | followed hhere hname hlink _ _ ih => exact .followed hhere hname hlink (.inr rfl) (ih hno)
  | down hhere hname hno' _ ih => exact .down hhere hname hno' (ih hno)

theorem way_of_find (hl : ∀ name ∈ ns, IsName name) (h : d.find follows (pathOf ns) = .ok l) :
    Way d follows linkLimit [] ns l :=
  .of_locate ((find_pathOf_iff hl).mp h).2

theorem way_of_isDirectory (hns : ∀ name ∈ ns, IsName name)
    (h : d.isDirectory (pathOf ns) = true) :
    ∃ p, Way d true linkLimit [] ns p ∧ d.node? p = some .directory := by
  unfold isDirectory at h
  split at h
  · rename_i p hlook
    obtain ⟨hfind, hnode⟩ := lookUp_eq_ok_iff.mp hlook
    exact ⟨p, way_of_find hns hfind, hnode⟩
  · cases h

/-- What a way leads to is known when it is known where the way to the directory leads. -/
theorem Way.eq_concat (h : Way d follows links l (ns ++ [name]) l') (hname : IsName name)
    (hp : Way d true links l ns p) (hdirectory : d.node? p = some .directory)
    (hno : follows = false ∨ ∀ target, d.node? (p ++ [name]) ≠ some (.link target)) :
    l' = p ++ [name] := by
  have hdescends := descends_of_isName hname (h.short name (by simp) hname)
  have hway := hp.concat hdirectory hdescends hno
  exact Except.ok.inj (h.locate.symm.trans hway.locate)

/-- Directories stay, and the links are the same. -/
structure SameWays (d d' : Disk) : Prop where
  directory : ∀ {k}, d.node? k = some .directory → d'.node? k = some .directory
  link : ∀ {k target}, d'.node? k = some (.link target) ↔ d.node? k = some (.link target)

theorem SameWays.refl (d : Disk) : SameWays d d :=
  ⟨id, Iff.rfl⟩

theorem SameWays.trans (h : SameWays d d') (h' : SameWays d' d'') : SameWays d d'' :=
  ⟨fun hk => h'.directory (h.directory hk), h'.link.trans h.link⟩

theorem SameWays.way (h : SameWays d d') (hw : Way d follows links l ns l') :
    Way d' follows links l ns l' := by
  induction hw with
  | done => exact .done
  | stay hhere hstay _ ih => exact .stay (h.directory hhere) hstay ih
  | up hhere _ ih => exact .up (h.directory hhere) ih
  | unfollowed hhere hname hlink hfollows =>
      exact .unfollowed (h.directory hhere) hname (h.link.mpr hlink) hfollows
  | followed hhere hname hlink hgo _ ih =>
      exact .followed (h.directory hhere) hname (h.link.mpr hlink) hgo ih
  | down hhere hname hno _ ih =>
      exact .down (h.directory hhere) hname (fun target hlink => hno target (h.link.mp hlink)) ih

theorem SameWays.find {path : String} (h : SameWays d d') (hpath : Spells path)
    (hfind : d.find follows path = .ok l) : d'.find follows path = .ok l := by
  obtain ⟨ns, hns, rfl⟩ := hpath
  obtain ⟨hfault, hlocate⟩ := (find_pathOf_iff hns).mp hfind
  exact (find_pathOf_iff hns).mpr ⟨hfault, (h.way (.of_locate hlocate)).locate⟩

/-- A location other than the root is in a directory. -/
def Standing (d : Disk) (l : Location) : Prop :=
  ∀ k name, l = k ++ [name] → d.node? k = some .directory

theorem Rooted.standing (hd : d.Rooted) {n : Node} (h : d.node? l = some n) : d.Standing l := by
  rintro k name rfl
  exact hd k name n h

theorem standing_concat (h : d.node? l = some .directory) (name : String) :
    d.Standing (l ++ [name]) := by
  intro k last he
  obtain ⟨rfl, -⟩ := List.append_singleton_inj.mp he
  exact h

theorem Rooted.dropLast (hd : d.Rooted) (h : d.node? l = some .directory) :
    d.node? l.dropLast = some .directory := by
  rcases l.eq_nil_or_concat with rfl | ⟨k, last, rfl⟩
  · exact h
  · rw [List.concat_eq_append] at h ⊢
    rw [List.dropLast_concat]
    exact hd k last _ h

/-- What holds of directories and of what a look-up may end at in one, holds of the end of a
look-up. -/
theorem Rooted.way_end {P : Location → Prop} (hd : d.Rooted)
    (hdirectory : ∀ {k : Location}, d.node? k = some .directory → P k)
    (hdown : ∀ {k : Location} (name : String), d.node? k = some .directory →
      (follows = true → ∀ target, d.node? (k ++ [name]) ≠ some (.link target)) → P (k ++ [name]))
    (hl : P l) (h : Way d follows links l ns l') : P l' := by
  induction h with
  | done => exact hl
  | stay _ _ _ ih => exact ih hl
  | up hhere _ ih => exact ih (hdirectory (hd.dropLast hhere))
  | unfollowed hhere _ _ hfollows =>
      refine hdown _ hhere fun he => ?_
      rw [hfollows] at he
      cases he
  | followed hhere _ _ _ _ ih =>
      refine ih ?_
      split
      · exact hdirectory (node?_nil d)
      · exact hdirectory hhere
  | down hhere _ hno _ ih => exact ih (hdown _ hhere fun _ => hno)

/-- Every look-up ends in a directory, whether or not something is there. -/
theorem Rooted.standing_of_way (hd : d.Rooted) (hl : d.Standing l)
    (h : Way d follows links l ns l') : d.Standing l' :=
  hd.way_end hd.standing (fun name hhere _ => standing_concat hhere name) hl h

theorem Rooted.node?_ne_link (hd : d.Rooted) (hl : ∀ target, d.node? l ≠ some (.link target))
    (h : Way d true links l ns l') (target : String) : d.node? l' ≠ some (.link target) := by
  have hof : ∀ {k : Location}, d.node? k = some .directory →
      ∀ target, d.node? k ≠ some (.link target) := by
    intro k hk target he
    rw [hk] at he
    cases he
  exact hd.way_end (P := fun k => ∀ target, d.node? k ≠ some (.link target)) hof
    (fun _ _ hno => hno rfl) hl h target

/-- A node that is put in a directory, in the place of nothing that is below it. -/
theorem Rooted.put (hd : d.Rooted) (hl : d.Standing l) (hne : l ≠ []) {n : Node}
    (hkeep : d.node? l = some .directory → n = .directory) : (d.put l n).Rooted := by
  intro k name n' h
  have hup : d.node? k = some .directory := by
    rw [node?_put hne] at h
    split at h
    · rename_i he
      exact hl k name he.symm
    · exact hd k name n' h
  rw [node?_put hne]
  split
  · rename_i he
    rw [hkeep (he ▸ hup)]
  · exact hup

theorem Rooted.node?_below (hd : d.Rooted) (h : d.node? l ≠ some .directory) (name : String) :
    d.node? (l ++ [name]) = none := by
  cases hn : d.node? (l ++ [name]) with
  | none => rfl
  | some n => exact absurd (hd l name n hn) h

end DefineBundle.Disk
