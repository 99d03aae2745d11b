import DefineBundle.Options.Settings
import DefineBundle.Proofs.Path.NormalForm
import DefineBundle.Proofs.Path.Patterns

/-!
# Paths of the system that are texts

A slash and a dot are one byte each, and no other character has one of these bytes. So a path that
is a text is seen from a directory in the same way as its text.
-/
namespace DefineBundle.NativePath

open DefineBundle.Text
open DefineBundle.Path (Route isAbsolute join route step)
open PathForm (ofText shown resolve isText)

/-- A character for each byte of a character. -/
def byteChars (c : Char) : List Char :=
  (String.utf8EncodeChar c).map fun b => Char.ofNat b.toNat

/-- A character for each byte of a text. -/
def spread (cs : List Char) : List Char :=
  cs.flatMap byteChars

theorem toList_spelled_ofText (text : String) :
    (ofText text : NativePath).spelled.toList = spread text.toList := by
  change (String.ofList ((encodeUtf8 text.toList).map _)).toList = _
  rw [String.toList_ofList, encodeUtf8, List.map_flatMap]
  rfl

theorem toNat_ofNat_byte (b : UInt8) : (Char.ofNat b.toNat).toNat = b.toNat := by
  have hlt := b.toNat_lt
  have hvalid : b.toNat.isValidChar := .inl (by omega)
  rw [Char.ofNat, dif_pos hvalid]
  rfl

theorem ofNat_toNat_byte (b : UInt8) : UInt8.ofNat (Char.ofNat b.toNat).toNat = b := by
  rw [toNat_ofNat_byte, UInt8.ofNat_toNat]

theorem ofSpelled_spelled (p : NativePath) : ofSpelled p.spelled = p := by
  obtain ⟨bytes⟩ := p
  rw [ofSpelled, spelled, String.toList_ofList, List.map_map]
  exact congrArg mk (List.map_id'' ofNat_toNat_byte bytes)

theorem spelled_ofSpelled {text : String} (h : ∀ c ∈ text.toList, c.toNat < 256) :
    (ofSpelled text).spelled = text := by
  have hchar : ∀ c ∈ text.toList, Char.ofNat (UInt8.ofNat c.toNat).toNat = id c := by
    intro c hc
    rw [UInt8.toNat_ofNat_of_lt' (h c hc), Char.ofNat_toNat, id]
  rw [spelled, ofSpelled, List.map_map]
  exact (congrArg String.ofList ((List.map_congr_left hchar).trans (List.map_id _))).trans
    String.ofList_toList

theorem ofText_injective {text other : String}
    (h : (ofText text : NativePath) = ofText other) : text = other := by
  rw [← shown_ofText text, h, shown_ofText]

theorem ofSpelled_spread (cs : List Char) :
    ofSpelled (String.ofList (spread cs)) = ofText (String.ofList cs) := by
  have hspelled := toList_spelled_ofText (String.ofList cs)
  rw [String.toList_ofList] at hspelled
  rw [← hspelled, String.ofList_toList, ofSpelled_spelled]

theorem spread_injective {cs ds : List Char} (h : spread cs = spread ds) : cs = ds := by
  refine String.ofList_inj.mp (ofText_injective ?_)
  rw [← ofSpelled_spread, h, ofSpelled_spread]

theorem byteChars_ne_nil (c : Char) : byteChars c ≠ [] := by
  intro h
  have hlength := congrArg List.length h
  have hpos := c.utf8Size_pos
  rw [byteChars, List.length_map, String.length_utf8EncodeChar, List.length_nil] at hlength
  omega

theorem slash_mem_byteChars_iff {c : Char} : '/' ∈ byteChars c ↔ c = '/' := by
  constructor
  · intro h
    obtain ⟨b, hb, he⟩ := List.mem_map.mp h
    have hslash : Path.Glob.ascii '/' = b := by
      rw [← he]
      exact ofNat_toNat_byte b
    exact Path.Glob.eq_of_ascii_mem (by decide) (hslash ▸ hb)
  · rintro rfl
    decide

theorem slash_mem_spread_iff {cs : List Char} : '/' ∈ spread cs ↔ '/' ∈ cs := by
  simp [spread, slash_mem_byteChars_iff]

theorem spread_joinWith (ps : List (List Char)) :
    spread (joinWith ['/'] ps) = joinWith ['/'] (ps.map spread) := by
  induction ps with
  | nil => rfl
  | cons p ps ih =>
      cases ps with
      | nil => rfl
      | cons q ps =>
          change spread (p ++ ['/'] ++ joinWith ['/'] (q :: ps)) = _
          rw [spread, List.flatMap_append, List.flatMap_append]
          exact congrArg (spread p ++ ['/'] ++ ·) ih

theorem splitOn_spread (cs : List Char) :
    splitOn '/' (spread cs) = (splitOn '/' cs).map spread := by
  conv => lhs; rw [← joinWith_splitOn '/' cs, spread_joinWith]
  refine splitOn_joinWith (by simp [splitOn_ne_nil]) fun p hp => ?_
  obtain ⟨q, hq, rfl⟩ := List.mem_map.mp hp
  exact fun h => not_mem_of_mem_splitOn hq (slash_mem_spread_iff.mp h)

theorem spread_eq_iff {cs ds : List Char} (hds : spread ds = ds) : spread cs = ds ↔ cs = ds := by
  constructor
  · intro h
    exact spread_injective (h.trans hds.symm)
  · rintro rfl
    exact hds

/-- A segment is walked in the same way when it is spelled by its bytes. -/
theorem step_spread (isAbsolute : Bool) (walked : List (List Char)) (segment : List Char) :
    step isAbsolute (walked.map spread) (spread segment) =
      (step isAbsolute walked segment).map spread := by
  have hnil : spread segment = [] ↔ segment = [] := spread_eq_iff rfl
  have hdot : spread segment = ['.'] ↔ segment = ['.'] := spread_eq_iff rfl
  have hup : ∀ s, spread s = ['.', '.'] ↔ s = ['.', '.'] := fun _ => spread_eq_iff rfl
  unfold step
  simp only [beq_iff_eq, Bool.or_eq_true, hnil, hdot, hup]
  split
  · rfl
  · split
    · cases walked with
      | nil =>
          simp only [List.map_nil]
          split <;> rfl
      | cons last before =>
          simp only [List.map_cons, hup]
          split <;> rfl
    · rfl

theorem foldl_step_spread (isAbsolute : Bool) (walked segments : List (List Char)) :
    (segments.map spread).foldl (step isAbsolute) (walked.map spread) =
      (segments.foldl (step isAbsolute) walked).map spread := by
  induction segments generalizing walked with
  | nil => rfl
  | cons segment segments ih =>
      rw [List.map_cons, List.foldl_cons, List.foldl_cons, step_spread, ih]

theorem head?_spread_eq_slash_iff (cs : List Char) :
    (spread cs).head? = some '/' ↔ cs.head? = some '/' := by
  cases cs with
  | nil => rfl
  | cons c cs =>
      obtain ⟨x, xs, hc⟩ := List.exists_cons_of_ne_nil (byteChars_ne_nil c)
      have hspread : (spread (c :: cs)).head? = some x := by
        rw [spread, List.flatMap_cons, hc]
        rfl
      rw [hspread, List.head?_cons, Option.some_inj, Option.some_inj]
      constructor
      · rintro rfl
        exact slash_mem_byteChars_iff.mp (hc ▸ List.mem_cons_self)
      · rintro rfl
        exact (List.cons.inj hc).1.symm

theorem getLast?_spread_eq_slash_iff (cs : List Char) :
    (spread cs).getLast? = some '/' ↔ cs.getLast? = some '/' := by
  rcases cs.eq_nil_or_concat with rfl | ⟨cs, c, rfl⟩
  · rfl
  · rw [List.concat_eq_append]
    have hlast : (spread (cs ++ [c])).getLast? = (byteChars c).getLast? := by
      obtain ⟨x, hx⟩ := Option.ne_none_iff_exists'.mp
        (mt List.getLast?_eq_none_iff.mp (byteChars_ne_nil c))
      rw [spread, List.flatMap_append, List.flatMap_singleton, List.getLast?_append, hx]
      rfl
    rw [hlast, List.getLast?_concat, Option.some_inj]
    constructor
    · intro h
      exact slash_mem_byteChars_iff.mp (List.mem_of_getLast? h)
    · rintro rfl
      rfl

theorem isAbsolute_spelled (text : String) :
    isAbsolute (ofText text : NativePath).spelled = isAbsolute text := by
  rw [isAbsolute, isAbsolute, toList_spelled_ofText, Bool.eq_iff_iff, beq_iff_eq, beq_iff_eq]
  exact head?_spread_eq_slash_iff text.toList

theorem normalize_spelled (text : String) :
    Path.normalize (ofText text : NativePath).spelled =
      (ofText (Path.normalize text) : NativePath).spelled := by
  have hroute : (route (ofText text : NativePath).spelled).reduce =
      ⟨isAbsolute text, (route text).reduce.segments.map spread⟩ := by
    rw [route, isAbsolute_spelled, toList_spelled_ofText, splitOn_spread]
    change Route.mk _ (List.foldl _ (List.map spread []) _).reverse = _
    rw [foldl_step_spread, ← List.map_reverse]
    rfl
  rw [Path.normalize, hroute]
  refine String.toList_inj.mp ?_
  rw [toList_spelled_ofText, Path.normalize]
  change _ = spread (Route.mk (isAbsolute text) (route text).reduce.segments).text.toList
  unfold Route.text
  dsimp only
  rw [← spread_joinWith, List.isEmpty_map]
  split
  · rw [String.toList_ofList, String.toList_ofList]
    rfl
  · split
    · rfl
    · rw [String.toList_ofList, String.toList_ofList]

theorem join_spelled (directory text : String) :
    join (ofText directory : NativePath).spelled
        (ofText text : NativePath).spelled =
      (ofText (join directory text) : NativePath).spelled := by
  have happend : ∀ a b : List Char, spread (a ++ b) = spread a ++ spread b := fun a b =>
    List.flatMap_append
  have hempty : (ofText directory : NativePath).spelled.isEmpty = directory.isEmpty := by
    rw [Bool.eq_iff_iff, String.isEmpty_iff, String.isEmpty_iff, ← String.toList_inj,
      ← String.toList_inj, toList_spelled_ofText]
    exact spread_eq_iff rfl
  have hlast : ((ofText directory : NativePath).spelled.toList.getLast? == some '/') =
      (directory.toList.getLast? == some '/') := by
    rw [toList_spelled_ofText, Bool.eq_iff_iff, beq_iff_eq, beq_iff_eq]
    exact getLast?_spread_eq_slash_iff directory.toList
  unfold join
  rw [isAbsolute_spelled, hempty, hlast]
  refine String.toList_inj.mp ?_
  rw [toList_spelled_ofText]
  split
  · exact toList_spelled_ofText text
  · split
    · simp only [String.toList_append, toList_spelled_ofText, happend]
    · simp only [String.toList_append, toList_spelled_ofText, happend]
      rfl

/-- A text is seen from a directory as it is among texts. -/
theorem resolve_ofText (directory text : String) :
    resolve (ofText directory) (ofText text) =
      (ofText (Options.resolvePath directory text) : NativePath) := by
  change ofSpelled _ = _
  rw [join_spelled, normalize_spelled, ofSpelled_spelled]
  rfl

theorem ofText_shown {p : NativePath} (h : isText p = true) : ofText (shown p) = p := by
  have hbytes : encodeUtf8 (decodeUtf8 p.bytes) = p.bytes := eq_of_beq h
  change mk (encodeUtf8 (String.ofList (decodeUtf8 p.bytes)).toList) = p
  rw [String.toList_ofList, hbytes]

theorem spelled_resolve (directory p : NativePath) :
    (resolve directory p).spelled =
      Path.normalize (join directory.spelled p.spelled) := by
  have hbyte : ∀ q : NativePath, ∀ c ∈ q.spelled.toList, c.toNat < 256 := by
    intro q c hc
    rw [spelled, String.toList_ofList] at hc
    obtain ⟨b, -, rfl⟩ := List.mem_map.mp hc
    rw [toNat_ofNat_byte]
    exact b.toNat_lt
  refine spelled_ofSpelled fun c hc => ?_
  rcases Path.mem_of_mem_normalize hc with rfl | rfl | hc
  · decide
  · decide
  · rcases Path.mem_of_mem_join hc with rfl | hc | hc
    · decide
    · exact hbyte directory c hc
    · exact hbyte p c hc

theorem resolve_resolve {directory : NativePath} (h : isAbsolute directory.spelled = true)
    (p : NativePath) : resolve directory (resolve directory p) = resolve directory p := by
  change ofSpelled (Path.normalize (join directory.spelled (resolve directory p).spelled)) = _
  have habsolute : isAbsolute (resolve directory p).spelled = true := by
    rw [spelled_resolve]
    exact Path.isAbsolute_normalize (Path.isAbsolute_join h p.spelled)
  have hnormal : Path.IsNormal (resolve directory p).spelled := by
    rw [spelled_resolve]
    exact Path.isNormal_normalize _
  rw [join, habsolute, Bool.true_or, if_pos rfl, hnormal.normalize_eq, ofSpelled_spelled]

/-- What is seen from an absolute directory is, as a text, seen from there where it is. -/
theorem resolvePath_shown {directory : String} {p : NativePath} (h : isAbsolute directory = true)
    (htext : isText (resolve (ofText directory) p) = true) :
    Options.resolvePath directory (shown (resolve (ofText directory) p)) =
      shown (resolve (ofText directory) p) := by
  refine ofText_injective ?_
  rw [← resolve_ofText, ofText_shown htext]
  exact resolve_resolve ((isAbsolute_spelled directory).trans h) p

end DefineBundle.NativePath
