import DefineBundle.Proofs.Text.Placeholders
import DefineBundle.Text.VersionTokens
import Mathlib.Data.List.Nodup

/-!
# Placeholders that are left in a source

The placeholders with a value are replaced one after the other, each in what the others have made of
the source. So one of them is in the result only when a value has brought it up. No value does when
each is apart from its own placeholder and from those replaced before it; for a version without the
sign `@` nothing less will do for all sources. Where the placeholders stand free in the source, it
is enough that no value holds one of them.
-/
namespace DefineBundle.Text.VersionTokens

/-- The placeholders that have a value, each with its value, in the order in which they are
replaced. -/
def configured (t : VersionTokens) : List (List Char × List Char) :=
  t.placeholders.filterMap fun p => p.2.map fun value => (p.1.toList, value.toList)

/-- A text with words replaced by values, one after the other. -/
def replaceEach (ps : List (List Char × List Char)) (cs : List Char) : List Char :=
  ps.foldl (fun cs p => replaceAll p.1 p.2 cs) cs

theorem toList_substitute (t : VersionTokens) (source : String) :
    (t.substitute source).toList = replaceEach t.configured source.toList := by
  have hone : ∀ (ps : List (String × Option String)) (cs : List Char), ps.foldl replaceOne cs =
      replaceEach (ps.filterMap fun p => p.2.map fun value => (p.1.toList, value.toList)) cs := by
    intro ps
    induction ps with
    | nil => exact fun _ => rfl
    | cons p ps ih =>
        intro cs
        obtain ⟨word, value⟩ := p
        cases value with
        | none => exact ih cs
        | some value => exact ih _
  rw [substitute, String.toList_ofList, hone]
  rfl

section
variable {ps front back : List (List Char × List Char)} {cs word : List Char}

theorem replaceEach_append_cons (p : List Char × List Char) :
    replaceEach (front ++ p :: back) cs =
      replaceEach back (replaceAll p.1 p.2 (replaceEach front cs)) := by
  simp [replaceEach]

theorem replaceEach_eq_self (h : ∀ p ∈ ps, ¬ p.1 <:+: cs) : replaceEach ps cs = cs := by
  induction ps with
  | nil => rfl
  | cons p ps ih =>
      obtain ⟨hp, hps⟩ := List.forall_mem_cons.mp h
      have hsame : replaceEach (p :: ps) cs = replaceEach ps (replaceAll p.1 p.2 cs) := rfl
      rw [hsame, replaceAll_eq_self hp, ih hps]

/-- A word that was not there does not come up while others are replaced by values apart from it. -/
theorem not_infix_replaceEach (hwords : ∀ p ∈ ps, ∃ name, p.1 = placeholder name)
    (hapart : ∀ p ∈ ps, Apart p.2 word) (h : ¬ word <:+: cs) : ¬ word <:+: replaceEach ps cs := by
  induction ps generalizing cs with
  | nil => exact h
  | cons p ps ih =>
      obtain ⟨⟨name, hname⟩, hwords⟩ := List.forall_mem_cons.mp hwords
      obtain ⟨hp, hapart⟩ := List.forall_mem_cons.mp hapart
      have hnext : ¬ word <:+: replaceAll p.1 p.2 cs := by
        rw [hname]
        exact not_infix_replaceAll_placeholder name hp (.inr h)
      exact ih hwords hapart hnext

/-- A replaced word is gone for good when the values put in from then on are apart from it. -/
theorem not_infix_replaceEach_append_cons {p : List Char × List Char}
    (hwords : ∀ q ∈ p :: back, ∃ name, q.1 = placeholder name)
    (hapart : ∀ q ∈ p :: back, Apart q.2 p.1) : ¬ p.1 <:+: replaceEach (front ++ p :: back) cs := by
  obtain ⟨⟨name, hname⟩, hwords⟩ := List.forall_mem_cons.mp hwords
  obtain ⟨hown, hapart⟩ := List.forall_mem_cons.mp hapart
  rw [replaceEach_append_cons]
  apply not_infix_replaceEach hwords hapart
  rw [hname] at hown ⊢
  exact not_infix_replaceAll_placeholder name hown (.inl rfl)

/-- Where the words stand free and no value holds one of them, all that are replaced are gone. -/
theorem not_infix_replaceEach_of_standsFree {words : List (List Char)}
    (hps : ∀ p ∈ ps, p.1 ∈ words) (hne : [] ∉ words)
    (hvalues : ∀ p ∈ ps, ∀ other ∈ words, ¬ other <:+: p.2) (hfree : StandsFree words cs)
    (hword : word ∈ words) (h : word ∈ ps.map Prod.fst ∨ ¬ word <:+: cs) :
    ¬ word <:+: replaceEach ps cs := by
  induction ps generalizing cs with
  | nil => exact h.resolve_left (by simp)
  | cons p ps ih =>
      obtain ⟨hp, hps⟩ := List.forall_mem_cons.mp hps
      obtain ⟨hvalue, hvalues⟩ := List.forall_mem_cons.mp hvalues
      have hreplaced := replaced_replaceAll (fun he => hne (he ▸ hp)) p.2 cs
      obtain ⟨hafter, hgone⟩ := hreplaced.standsFree hp hne hvalue hfree
      apply ih hps hvalues hafter
      rcases h with hmem | hno
      · rcases List.mem_cons.mp hmem with rfl | hmem
        · exact .inr (hgone _ hword (.inl rfl))
        · exact .inl hmem
      · exact .inr (hgone word hword (.inr hno))

end

def names : List (List Char) :=
  ["version".toList, "majorVersion".toList, "minorVersion".toList, "releaseDate".toList]

theorem at_notMem_of_mem_names : ∀ name ∈ names, '@' ∉ name := by
  decide

theorem two_le_length_of_mem_names : ∀ name ∈ names, 2 ≤ name.length := by
  decide

theorem ne_nil_of_mem_names : ∀ name ∈ names, name ≠ [] := by
  decide

theorem eq_of_prefix_or_suffix : ∀ name ∈ names, ∀ other ∈ names,
    other <+: name ∨ other <:+ name → other = name := by
  decide

section
variable {name x y : List Char}

/-- A text that lacks at least one character of a placeholder's name has no name as a piece when it
is the beginning of the placeholder. -/
theorem notMem_splitOn_of_start (hname : name ∈ names) (hx : x <+: placeholder name)
    (hlength : x.length ≤ name.length + 1) : ∀ other ∈ names, other ∉ splitOn '@' x := by
  intro other hother
  have hne := ne_nil_of_mem_names other hother
  rcases List.prefix_cons_iff.mp hx with rfl | ⟨x', rfl, hx'⟩
  · simpa [splitOn] using hne
  rcases List.prefix_cons_iff.mp hx' with rfl | ⟨part, rfl, hpart⟩
  · simpa [splitOn] using hne
  simp only [List.length_cons] at hlength
  have hstart : part <+: name :=
    List.prefix_of_prefix_length_le hpart (List.prefix_append _ _) (by omega)
  have hat : '@' ∉ part := fun hmem => at_notMem_of_mem_names name hname (hstart.subset hmem)
  have hpieces : splitOn '@' ('@' :: '@' :: part) = [[], [], part] := by
    simp [splitOn, splitOn_of_notMem hat]
  rw [hpieces]
  have hshort : other ≠ part := by
    rintro rfl
    have heq := eq_of_prefix_or_suffix name hname other hother (.inl hstart)
    rw [heq] at hlength
    omega
  simp [hne, hshort]

theorem notMem_splitOn_of_end (hname : name ∈ names) (hy : y <:+ placeholder name)
    (hlength : y.length ≤ name.length + 1) : ∀ other ∈ names, other ∉ splitOn '@' y := by
  intro other hother
  have hne := ne_nil_of_mem_names other hother
  have hsplit : placeholder name = '@' :: '@' :: name ++ ['@'] ++ ['@'] := by
    simp [placeholder]
  rw [hsplit] at hy
  rcases List.suffix_concat_iff.mp hy with rfl | ⟨y', rfl, hy'⟩
  · simpa [splitOn] using hne
  rcases List.suffix_concat_iff.mp hy' with rfl | ⟨part, rfl, hpart⟩
  · simpa [splitOn] using hne
  simp only [List.length_append, List.length_singleton] at hlength
  have hend : part <:+ name :=
    List.suffix_of_suffix_length_le hpart (List.suffix_append ['@', '@'] name) (by omega)
  have hat : '@' ∉ part := fun hmem => at_notMem_of_mem_names name hname (hend.subset hmem)
  have hpieces : splitOn '@' (part ++ ['@'] ++ ['@']) = [part, [], []] := by
    rw [splitOn_append_cons, splitOn_append_cons, splitOn_of_notMem hat]
    rfl
  rw [hpieces]
  have hshort : other ≠ part := by
    rintro rfl
    have heq := eq_of_prefix_or_suffix name hname other hother (.inr hend)
    rw [heq] at hlength
    omega
  simp [hne, hshort]

end

section
variable {t : VersionTokens} {p : List Char × List Char}

theorem exists_name_of_mem_configured (h : p ∈ t.configured) :
    ∃ name ∈ names, p.1 = placeholder name := by
  obtain ⟨⟨word, value⟩, hmem, hp⟩ := List.mem_filterMap.mp h
  obtain ⟨value, rfl, rfl⟩ := Option.map_eq_some_iff.mp hp
  have hwords : ∀ q ∈ t.placeholders.map Prod.fst, ∃ name ∈ names, q.toList = placeholder name := by
    have hnames : t.placeholders.map Prod.fst =
      ["@@version@@", "@@majorVersion@@", "@@minorVersion@@", "@@releaseDate@@"] := rfl
    rw [hnames]
    decide
  exact hwords word (List.mem_map_of_mem hmem)

theorem nodup_configured (t : VersionTokens) : (t.configured.map Prod.fst).Nodup := by
  have hsublist : ∀ ps : List (String × Option String),
      ((ps.filterMap fun p => p.2.map fun value => (p.1.toList, value.toList)).map Prod.fst).Sublist
        (ps.map fun p => p.1.toList) := by
    intro ps
    induction ps with
    | nil => exact List.Sublist.refl _
    | cons p ps ih =>
        obtain ⟨word, value⟩ := p
        cases value with
        | none => exact ih.cons _
        | some value => exact ih.cons_cons _
  refine (hsublist t.placeholders).nodup ?_
  change ["@@version@@".toList, "@@majorVersion@@".toList, "@@minorVersion@@".toList,
    "@@releaseDate@@".toList].Nodup
  decide

theorem exists_parts {version : String} (h : t.version = some version) :
    ∃ major minor, t.major? = some major ∧ t.minor? = some minor ∧
      major.toList ⊆ version.toList ∧ minor.toList ⊆ version.toList := by
  cases hsplit : splitFirst? ['.'] version.toList with
  | none =>
      exact ⟨version, "", by simp [major?, h, hsplit], by simp [minor?, h, hsplit],
        List.Subset.refl _, List.nil_subset _⟩
  | some parts =>
      obtain ⟨before, rest⟩ := parts
      refine ⟨.ofList before, .ofList rest, by simp [major?, h, hsplit],
        by simp [minor?, h, hsplit], ?_, ?_⟩
      · rw [eq_of_splitFirst? hsplit, String.toList_ofList]
        exact List.subset_append_left _ _
      · rw [eq_of_splitFirst? hsplit, String.toList_ofList]
        exact fun c hc => by simp [hc]

/-- When the version has no sign, a value that is followed by another one has none. -/
theorem at_notMem_of_configured_eq (hversion : ∀ v, t.version = some v → '@' ∉ v.toList)
    {front back : List (List Char × List Char)} (h : t.configured = front ++ p :: back)
    (hback : back ≠ []) : '@' ∉ p.2 := by
  have hall : ∀ q ∈ t.configured.dropLast, '@' ∉ q.2 := by
    cases hv : t.version with
    | none =>
        cases hd : t.releaseDate <;> simp [configured, placeholders, major?, minor?, hv, hd]
    | some version =>
        have hat := hversion version hv
        obtain ⟨major, minor, hmajor, hminor, hin, hin'⟩ := exists_parts hv
        have hatMajor : '@' ∉ major.toList := fun hmem => hat (hin hmem)
        have hatMinor : '@' ∉ minor.toList := fun hmem => hat (hin' hmem)
        cases hd : t.releaseDate <;>
          simp [configured, placeholders, hv, hd, hmajor, hminor, hat, hatMajor, hatMinor]
  apply hall
  rw [h, List.dropLast_append_of_ne_nil (by simp), List.dropLast_cons_of_ne_nil hback]
  simp

/-- No placeholder with a value is left in what becomes of a source. -/
def LeavesNone (t : VersionTokens) (source : String) : Prop :=
  ∀ p ∈ t.configured, ¬ p.1 <:+: (t.substitute source).toList

/-- Every value is apart from the placeholder that it replaces and from those replaced before it. -/
def IsSettled (t : VersionTokens) : Prop :=
  ∀ front p back, t.configured = front ++ p :: back → ∀ q ∈ front ++ [p], Apart p.2 q.1

theorem LeavesNone.substitute_eq {source : String} (h : t.LeavesNone source) :
    t.substitute (t.substitute source) = t.substitute source := by
  apply String.toList_injective
  rw [toList_substitute, replaceEach_eq_self h]

theorem IsSettled.leavesNone (h : t.IsSettled) (source : String) : t.LeavesNone source := by
  intro p hp
  obtain ⟨front, back, hsplit⟩ := List.append_of_mem hp
  rw [toList_substitute, hsplit]
  apply not_infix_replaceEach_append_cons
  · intro q hq
    have hmem : q ∈ t.configured := hsplit ▸ List.mem_append_right front hq
    obtain ⟨name, -, hname⟩ := exists_name_of_mem_configured hmem
    exact ⟨name, hname⟩
  · intro q hq
    rcases List.mem_cons.mp hq with rfl | hq
    · exact h front q back hsplit q (by simp)
    · obtain ⟨between, after, rfl⟩ := List.append_of_mem hq
      exact h (front ++ p :: between) q after (by simp [hsplit]) p (by simp)

theorem leavesNone_of_standsFree {source : String}
    (hvalues : ∀ p ∈ t.configured, ∀ q ∈ t.configured, ¬ q.1 <:+: p.2)
    (hfree : StandsFree (t.configured.map Prod.fst) source.toList) : t.LeavesNone source := by
  intro p hp
  rw [toList_substitute]
  refine not_infix_replaceEach_of_standsFree (fun q hq => List.mem_map_of_mem hq) ?_ ?_ hfree
    (List.mem_map_of_mem hp) (.inl (List.mem_map_of_mem hp))
  · intro hnil
    obtain ⟨q, hq, hempty⟩ := List.mem_map.mp hnil
    obtain ⟨name, -, hname⟩ := exists_name_of_mem_configured hq
    rw [hname] at hempty
    cases hempty
  · intro q hq other hother
    obtain ⟨r, hr, rfl⟩ := List.mem_map.mp hother
    exact hvalues q hq r hr

/-- Words stay as they are in a text that has no name of theirs as a piece. -/
theorem replaceEach_eq_self_of_pieces {rs : List (List Char × List Char)} {word cs : List Char}
    (hrs : ∀ r ∈ rs, r ∈ t.configured ∧ r.1 ≠ word)
    (hpieces : ∀ name ∈ names, name ∈ splitOn '@' cs → placeholder name = word) :
    replaceEach rs cs = cs := by
  refine replaceEach_eq_self fun r hr hin => ?_
  obtain ⟨hmem, hne⟩ := hrs r hr
  obtain ⟨name, hname, heq⟩ := exists_name_of_mem_configured hmem
  have hpiece := mem_splitOn_of_placeholder (at_notMem_of_mem_names name hname) (heq ▸ hin)
  exact hne (heq.trans (hpieces name hname hpiece))

theorem replaceEach_placeholder {rs : List (List Char × List Char)} {name x y : List Char}
    (hrs : ∀ r ∈ rs, r ∈ t.configured ∧ r.1 ≠ placeholder name) (hname : name ∈ names)
    (hx : ∀ other ∈ names, other ∉ splitOn '@' x) (hy : ∀ other ∈ names, other ∉ splitOn '@' y) :
    replaceEach rs (x ++ (placeholder name ++ y)) = x ++ (placeholder name ++ y) := by
  refine replaceEach_eq_self_of_pieces hrs fun other hother hpiece => ?_
  rw [splitOn_placeholder (at_notMem_of_mem_names name hname)] at hpiece
  obtain rfl : other = name := by
    simpa [ne_nil_of_mem_names other hother, hx other hother, hy other hother] using hpiece
  rfl

theorem ne_of_configured_eq {front back : List (List Char × List Char)}
    (h : t.configured = front ++ p :: back) :
    (∀ r ∈ front, r ∈ t.configured ∧ r.1 ≠ p.1) ∧
      ∀ r ∈ back, ∀ q ∈ front ++ [p], r ∈ t.configured ∧ r.1 ≠ q.1 := by
  have hnodup := nodup_configured t
  rw [h, List.append_cons, List.map_append, List.nodup_append] at hnodup
  obtain ⟨hfront, -, hback⟩ := hnodup
  rw [List.map_append, List.nodup_append] at hfront
  constructor
  · intro r hr
    refine ⟨by simp [h, hr], ?_⟩
    exact hfront.2.2 r.1 (List.mem_map_of_mem hr) p.1 (by simp)
  · intro r hr q hq
    refine ⟨by simp [h, hr], Ne.symm ?_⟩
    exact hback q.1 (List.mem_map_of_mem hq) r.1 (List.mem_map_of_mem hr)

/-- A value that ends in a sign, when it is the last to be put in, brings up its own placeholder. -/
theorem exists_not_leavesNone_of_sign {front : List (List Char × List Char)}
    (hsplit : t.configured = front ++ [p]) (hend : ['@'] <:+ p.2) :
    ∃ source, ¬ t.LeavesNone source := by
  have hmem : p ∈ t.configured := by simp [hsplit]
  obtain ⟨own, hown, hp⟩ := exists_name_of_mem_configured hmem
  have hat := at_notMem_of_mem_names own hown
  have hsource : replaceEach front (placeholder own ++ '@' :: (own ++ ['@', '@'])) =
      placeholder own ++ '@' :: (own ++ ['@', '@']) := by
    refine replaceEach_eq_self_of_pieces (ne_of_configured_eq hsplit).1 fun name hname hpiece => ?_
    rw [splitOn_shared hat] at hpiece
    obtain rfl : name = own := by simpa [ne_nil_of_mem_names name hname] using hpiece
    exact hp.symm
  obtain ⟨value, hvalue⟩ := hend
  refine ⟨.ofList (placeholder own ++ '@' :: (own ++ ['@', '@'])), fun h => h p hmem ?_⟩
  rw [toList_substitute, hsplit, replaceEach_append_cons, String.toList_ofList, hsource, hp,
    replaceAll_shared]
  exact ⟨value, [], by simp [replaceEach, placeholder, ← hvalue]⟩

/-- A value that is not apart from a placeholder brings one up in some source. -/
theorem exists_not_leavesNone (hversion : ∀ v, t.version = some v → '@' ∉ v.toList)
    {front back : List (List Char × List Char)} {q : List Char × List Char}
    (hsplit : t.configured = front ++ p :: back) (hq : q ∈ front ++ [p])
    (h : ¬ Apart p.2 q.1) : ∃ source, ¬ t.LeavesNone source := by
  have hlast : '@' ∈ p.2 → back = [] := fun hat =>
    by_contra fun hne => at_notMem_of_configured_eq hversion hsplit hne hat
  by_cases hend : ['@'] <:+ p.2
  · obtain rfl := hlast (hend.subset List.mem_cons_self)
    exact exists_not_leavesNone_of_sign hsplit hend
  have hmem : p ∈ t.configured := by simp [hsplit]
  have hqmem : q ∈ t.configured := by
    rw [hsplit, List.append_cons]
    exact List.mem_append_left _ hq
  obtain ⟨own, hown, hp⟩ := exists_name_of_mem_configured hmem
  obtain ⟨name, hname, hqname⟩ := exists_name_of_mem_configured hqmem
  obtain ⟨hfront, hback⟩ := ne_of_configured_eq hsplit
  rw [hqname] at h
  obtain ⟨x, y, hcompletion⟩ :=
    exists_completion (two_le_length_of_mem_names name hname) hend h
  have hx := notMem_splitOn_of_start hname hcompletion.start hcompletion.length_start
  have hy := notMem_splitOn_of_end hname hcompletion.rest hcompletion.length_rest
  -- the placeholder of the value stands in for the value that completes the other one
  have hsource : replaceEach front (x ++ (placeholder own ++ y)) = x ++ (placeholder own ++ y) :=
    replaceEach_placeholder (hp ▸ hfront) hown hx hy
  have hvalue : replaceAll p.1 p.2 (x ++ (placeholder own ++ y)) = x ++ (p.2 ++ y) := by
    rw [hp]
    exact replaceAll_placeholder (at_notMem_of_mem_names own hown) (ne_nil_of_mem_names own hown)
      (hx own hown) (hy own hown) p.2
  have hresult : replaceEach back (x ++ (p.2 ++ y)) = x ++ (p.2 ++ y) := by
    by_cases hsign : '@' ∈ p.2
    · rw [hlast hsign]
      rfl
    · have hempty : ∀ m ∈ names, m ∉ splitOn '@' [] := by decide
      have halone := replaceEach_placeholder (fun r hr => hqname ▸ hback r hr q hq) hname hempty
        hempty
      rw [hcompletion.whole hsign]
      simpa using halone
  refine ⟨.ofList (x ++ (placeholder own ++ y)), fun hnone => hnone q hqmem ?_⟩
  rw [toList_substitute, hsplit, replaceEach_append_cons, String.toList_ofList, hsource, hvalue,
    hresult, hqname]
  exact hcompletion.brings

/-- Values without a sign settle the placeholders when none of them is a part of a placeholder. -/
theorem isSettled_of_at_notMem (hat : ∀ p ∈ t.configured, '@' ∉ p.2)
    (hpart : ∀ p ∈ t.configured, ∀ q ∈ t.configured, ¬ p.2 <:+: q.1) : t.IsSettled := by
  intro front p back hsplit q hq
  have hmem : p ∈ t.configured := by simp [hsplit]
  have hqmem : q ∈ t.configured := by
    rw [hsplit, List.append_cons]
    exact List.mem_append_left _ hq
  obtain ⟨name, -, hname⟩ := exists_name_of_mem_configured hqmem
  have hapart := hpart p hmem q hqmem
  rw [hname] at hapart ⊢
  exact apart_of_notMem (hat p hmem) hapart

end

/-- What a substitution leaves. When no placeholder with a value is left in a source, substituting
once more changes nothing. None is left in any source when the values settle the placeholders, and
for a version without the sign `@` only then. Whatever the values, as long as none holds a
placeholder, none is left in a source where the placeholders stand free. -/
theorem substitute_leaves_none (t : VersionTokens) :
    (∀ source, t.LeavesNone source →
      t.substitute (t.substitute source) = t.substitute source) ∧
    (t.IsSettled → ∀ source, t.LeavesNone source) ∧
    ((∀ version, t.version = some version → '@' ∉ version.toList) →
      (∀ source, t.LeavesNone source) → t.IsSettled) ∧
    ((∀ p ∈ t.configured, ∀ q ∈ t.configured, ¬ q.1 <:+: p.2) →
      ∀ source, StandsFree (t.configured.map Prod.fst) source.toList → t.LeavesNone source) := by
  refine ⟨fun source h => h.substitute_eq, fun h source => h.leavesNone source, ?_,
    fun hvalues source hfree => leavesNone_of_standsFree hvalues hfree⟩
  intro hversion hnone front p back hsplit q hq
  by_contra hapart
  obtain ⟨source, hleft⟩ := exists_not_leavesNone hversion hsplit hq hapart
  exact hleft (hnone source)

/-- A version of three parts with its release date. -/
def dotted : VersionTokens :=
  ⟨some "4.5.1", some "2016-12-07"⟩

/-- A version of one part, so that its minor part is empty. -/
def single : VersionTokens :=
  ⟨some "4", none⟩

theorem isSettled_dotted : dotted.IsSettled := by
  apply isSettled_of_at_notMem
  · decide
  · simp only [← occurs_iff_infix]
    decide

theorem substitute_leaves_none_dotted :
    (dotted.LeavesNone "@@ver@@minorVersion@@sion@@" ∧
      (∀ source, dotted.substitute (dotted.substitute source) = dotted.substitute source) ∧
      dotted.IsSettled) ∧
    single.LeavesNone "'@@version@@' '@@minorVersion@@'" := by
  obtain ⟨hagain, hsettled, hexact, -⟩ := substitute_leaves_none dotted
  obtain ⟨-, -, -, hfree⟩ := substitute_leaves_none single
  have hnone := hsettled isSettled_dotted
  refine ⟨⟨hnone _, fun source => hagain source (hnone source), hexact ?_ hnone⟩, hfree ?_ _ ?_⟩
  · rintro version ⟨⟩
    decide
  · simp only [← occurs_iff_infix]
    decide
  · decide +kernel

/-- The empty minor part of a version brings the placeholder around it together. -/
theorem substitute_single_joins :
    single.substitute "@@ver@@minorVersion@@sion@@" = "@@version@@" ∧
      single.substitute (single.substitute "@@ver@@minorVersion@@sion@@") = "4" ∧
      ¬ single.LeavesNone "@@ver@@minorVersion@@sion@@" := by
  have honce : single.substitute "@@ver@@minorVersion@@sion@@" = "@@version@@" := by
    decide
  refine ⟨honce, by rw [honce]; decide, fun h => ?_⟩
  refine h ("@@version@@".toList, "4".toList) (by decide) ?_
  simp only [honce, List.infix_refl]

end DefineBundle.Text.VersionTokens
