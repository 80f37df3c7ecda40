import Declgen.Proofs.Files.Listing
import Mathlib.Data.List.DropRight

/-!
# The folders above a path

The folder that contains what a path names has the components of the path without the last one. So
the folders above a path that are strictly below its base have the first names of the path, the
nearest folder comes first, and the base stops them.
-/

namespace Declgen.Files

open Text

namespace Path

variable {base p q : Path} {names : List String} {name first last : String}
  {rest segments : List String} {absolute : Bool}

/-! ### Segments that lead somewhere -/

/-- Dropping the idle segments at the end is the operation of the library. -/
private theorem dropIdle_eq (segments : List String) : dropIdle segments = segments.rdropWhile isIdle := rfl

/-- A segment that leads somewhere ends the dropping. -/
theorem dropIdle_concat (h : isIdle last = false) (segments : List String) :
    dropIdle (segments ++ [last]) = segments ++ [last] :=
  List.rdropWhile_concat_neg _ _ _ (by simp [h])

/-- No component is lost with idle segments at the end. -/
theorem inner_dropIdle (segments : List String) : inner (dropIdle segments) = inner segments := by
  induction segments using List.reverseRecOn with
  | nil => rfl
  | append_singleton segments last ih =>
    by_cases hidle : isIdle last = true
    · rw [dropIdle_eq, List.rdropWhile_concat_pos _ _ _ hidle, ← dropIdle_eq, ih,
        OutputFile.inner_append, inner_cons_of_idle hidle]
      exact (List.append_nil _).symm
    · rw [dropIdle_concat (by simpa using hidle)]

/-- Unless nothing is left, the last segment that is left leads somewhere. -/
theorem exists_of_dropIdle (h : dropIdle segments ≠ []) :
    ∃ above last, dropIdle segments = above ++ [last] ∧ isIdle last = false :=
  ⟨_, _, (List.dropLast_append_getLast h).symm,
    Bool.eq_false_iff.mpr (List.rdropWhile_last_not isIdle segments h)⟩

/-- Dropping brings no new segments. -/
theorem dropIdle_subset (segments : List String) : dropIdle segments ⊆ segments :=
  (List.rdropWhile_prefix isIdle segments).subset

/-! ### Components -/

/-- The components that the first segment of a path stands for. -/
def onset (absolute : Bool) (first : String) : List Component :=
  if absolute then [.root] else if first = "." then [.here] else inner [first]

/-- A path has at least one segment. -/
theorem exists_segments (p : Path) : ∃ first rest, p.segments = first :: rest :=
  List.exists_cons_of_ne_nil (splitAt_ne_nil p.text)

/-- An absolute path has an empty segment before its first slash. -/
theorem isAbsolute_iff (h : p.segments = first :: rest) :
    p.isAbsolute = true ↔ first = "" ∧ rest ≠ [] := by
  constructor
  · intro habsolute
    obtain ⟨next, others, heq⟩ := segments_of_isAbsolute habsolute
    obtain ⟨rfl, rfl⟩ := List.cons.inj (h.symm.trans heq)
    exact ⟨rfl, List.cons_ne_nil _ _⟩
  · rintro ⟨rfl, hne⟩
    have htext : "/".intercalate p.segments = p.text := intercalate_splitAt p.text
    rw [h, String.intercalate_cons_of_ne_nil hne, String.empty_append] at htext
    rw [isAbsolute, ← htext, String.toList_append]
    rfl

/-- The components are those of the first segment and those of the others. -/
theorem components_eq (h : p.segments = first :: rest) :
    p.components = onset p.isAbsolute first ++ inner rest := by
  have hcons : inner (first :: rest) = inner [first] ++ inner rest :=
    OutputFile.inner_append [first] rest
  rw [components, h, onset]
  dsimp only
  rw [hcons]
  split
  · rfl
  · split <;> rfl

/-- The segments from which a path is made. Only the top has one more. -/
theorem segments_ofSegments (hsegments : ∀ s ∈ first :: rest, '/' ∉ s.toList)
    (hrest : absolute = false ∨ rest ≠ []) :
    (ofSegments absolute first rest).segments = first :: rest := by
  rw [ofSegments, if_neg (by rcases hrest with rfl | hne <;> simp [*])]
  exact splitAt_intercalate (List.cons_ne_nil _ _) hsegments

/-- A path that is made from segments is absolute if they are those of an absolute one. -/
theorem isAbsolute_ofSegments (hsegments : ∀ s ∈ first :: rest, '/' ∉ s.toList)
    (habsolute : absolute = true ↔ first = "") :
    (ofSegments absolute first rest).isAbsolute = absolute := by
  by_cases htop : absolute = true ∧ rest = []
  · obtain ⟨rfl, rfl⟩ := htop
    obtain rfl := habsolute.mp rfl
    rfl
  · have hrest : absolute = false ∨ rest ≠ [] := by simpa [imp_iff_not_or] using htop
    rw [Bool.eq_iff_iff, isAbsolute_iff (segments_ofSegments hsegments hrest), habsolute]
    exact and_iff_left_of_imp fun hfirst => hrest.resolve_left (by simp [habsolute.mpr hfirst])

/-- A path that is made from segments has their components. -/
theorem components_ofSegments (hsegments : ∀ s ∈ first :: rest, '/' ∉ s.toList)
    (habsolute : absolute = true ↔ first = "") :
    (ofSegments absolute first rest).components = onset absolute first ++ inner rest := by
  by_cases htop : absolute = true ∧ rest = []
  · obtain ⟨rfl, rfl⟩ := htop
    obtain rfl := habsolute.mp rfl
    rfl
  · have hrest : absolute = false ∨ rest ≠ [] := by simpa [imp_iff_not_or] using htop
    rw [components_eq (segments_ofSegments hsegments hrest),
      isAbsolute_ofSegments hsegments habsolute]

/-- Behind the last segment that leads somewhere, a path is cut off, and so are the idle segments
before that one. -/
theorem parent?_of_segments {above : List String} (h : p.segments = first :: rest)
    (hrest : dropIdle rest = above ++ [last]) :
    p.parent? = some (ofSegments p.isAbsolute first (dropIdle above)) := by
  rw [parent?, h]
  dsimp only
  split
  · rename_i hnil
    rw [hrest] at hnil
    simp at hnil
  · rw [hrest, List.dropLast_concat]

/-- The segments that are left for the folder above a path hold no slash, and the path is absolute
if the first one is empty. -/
theorem segments_of_dropIdle {above : List String} (h : p.segments = first :: rest)
    (hrest : dropIdle rest = above ++ [last]) :
    (∀ s ∈ first :: dropIdle above, '/' ∉ s.toList) ∧ (p.isAbsolute = true ↔ first = "") := by
  constructor
  · intro s hs
    have hmem : s ∈ p.segments := by
      rw [h]
      refine List.cons_subset_cons first (fun s hs => dropIdle_subset rest ?_) hs
      rw [hrest]
      exact List.mem_append_left _ (dropIdle_subset above hs)
    exact (mem_splitAt hmem).1
  · rw [isAbsolute_iff h, and_iff_left_iff_imp]
    rintro - rfl
    simp [dropIdle] at hrest

/-- The path of the folder above is empty if only the first segment leads anywhere. Otherwise it is
cut off before the last segment that does. -/
theorem parent?_cases (hp : p.segments = first :: rest) (h : p.parent? = some q) :
    (dropIdle rest = [] ∧ first ≠ "" ∧ q = ⟨""⟩) ∨
      ∃ above last, dropIdle rest = above ++ [last] ∧ isIdle last = false ∧
        q = ofSegments p.isAbsolute first (dropIdle above) := by
  by_cases hrest : dropIdle rest = []
  · rw [parent?, hp] at h
    simp only [hrest] at h
    split at h
    · cases h
    · rename_i hne
      exact .inl ⟨hrest, hne, (Option.some.inj h).symm⟩
  · obtain ⟨above, last, habove, hlast⟩ := exists_of_dropIdle hrest
    rw [parent?_of_segments hp habove, Option.some.injEq] at h
    exact .inr ⟨above, last, habove, hlast, h.symm⟩

/-- The folder above a path has the components of the path without the last one. -/
theorem components_parent? (h : p.parent? = some q) : q.components = p.components.dropLast := by
  obtain ⟨first, rest, hp⟩ := p.exists_segments
  rw [components_eq hp, ← inner_dropIdle rest]
  rcases parent?_cases hp h with ⟨hrest, hne, rfl⟩ | ⟨above, last, habove, hlast, rfl⟩
  · rw [hrest, onset, if_neg fun hroot => hne ((isAbsolute_iff hp).mp hroot).1]
    split
    · rfl
    · rename_i hdot
      rw [inner_cons_of_not_idle (by simp [isIdle, hne, hdot])]
      rfl
  · obtain ⟨hsegments, habsolute⟩ := segments_of_dropIdle hp habove
    have hinner : inner (above ++ [last]) = inner above ++ [component last] := by
      rw [OutputFile.inner_append, inner_cons_of_not_idle (by simp [hlast])]
      rfl
    rw [habove, components_ofSegments hsegments habsolute, inner_dropIdle, hinner,
      ← List.append_assoc, List.dropLast_concat]

/-! ### Ancestors -/

/-- Nothing is above a path without components. -/
theorem parent?_of_components (h : p.components = []) : p.parent? = none := by
  obtain ⟨first, rest, hp⟩ := p.exists_segments
  have hidle {segments : List String} (h : inner segments = []) :
      ∀ s ∈ segments, isIdle s = true := by
    simpa [inner, List.filter_eq_nil_iff] using h
  rw [components_eq hp, List.append_eq_nil_iff] at h
  obtain ⟨honset, hrest⟩ := h
  have hfirst : first = "" := by
    unfold onset at honset
    split at honset
    · cases honset
    · split at honset
      · cases honset
      · have := hidle honset first List.mem_cons_self
        simp_all [isIdle]
  rw [parent?, hp]
  dsimp only
  rw [dropIdle_eq, List.rdropWhile_eq_nil_iff.mpr (hidle hrest)]
  exact if_pos hfirst

/-- There are no more components than segments. -/
theorem length_components_le (p : Path) : p.components.length ≤ p.segments.length := by
  obtain ⟨first, rest, hp⟩ := p.exists_segments
  have hinner (segments : List String) : (inner segments).length ≤ segments.length := by
    rw [inner, List.length_map]
    exact List.length_filter_le _ _
  have honset : (onset p.isAbsolute first).length ≤ 1 := by
    unfold onset
    split
    · exact le_rfl
    · split
      · exact le_rfl
      · exact hinner [first]
  rw [components_eq hp, hp, List.length_append, List.length_cons]
  have := hinner rest
  omega

/-- How far one goes up does not matter once the way is as long as the path. -/
theorem ancestorsWithin_congr {n m : Nat} (hn : p.components.length ≤ n)
    (hm : p.components.length ≤ m) : ancestorsWithin n p = ancestorsWithin m p := by
  induction n generalizing p m with
  | zero =>
    have hnone := parent?_of_components (List.length_eq_zero_iff.mp (Nat.le_zero.mp hn))
    cases m with
    | zero => rfl
    | succ m => rw [ancestorsWithin, ancestorsWithin, hnone]
  | succ n ih =>
    cases m with
    | zero =>
      have hnone := parent?_of_components (List.length_eq_zero_iff.mp (Nat.le_zero.mp hm))
      rw [ancestorsWithin, ancestorsWithin, hnone]
    | succ m =>
      rw [ancestorsWithin, ancestorsWithin]
      cases habove : p.parent? with
      | none => rfl
      | some q =>
        have hlength := congrArg List.length (components_parent? habove)
        rw [List.length_dropLast] at hlength
        exact congrArg (q :: ·) (ih (by omega) (by omega))

/-- The folder above a path comes first, and then those above this folder. -/
theorem ancestors_of_parent? (h : p.parent? = some q) : p.ancestors = q :: q.ancestors := by
  obtain ⟨first, rest, hp⟩ := p.exists_segments
  have hlength := congrArg List.length (components_parent? h)
  have hbound := length_components_le p
  rw [List.length_dropLast] at hlength
  rw [hp, List.length_cons] at hbound
  rw [ancestors, hp, List.length_cons, ancestorsWithin, h]
  exact congrArg (q :: ·) (ancestorsWithin_congr (by omega) (length_components_le q))

/-- Above a path without a folder there is none. -/
theorem ancestors_of_parent?_none (h : p.parent? = none) : p.ancestors = [] := by
  obtain ⟨first, rest, hp⟩ := p.exists_segments
  rw [ancestors, hp, List.length_cons, ancestorsWithin, h]

/-! ### First segments -/

/-- A path is cut off behind a segment that leads somewhere. -/
structure CutOff (p q : Path) (above : List String) (last : String) : Prop where
  /-- The segment leads somewhere. -/
  idle : isIdle last = false
  /-- It is the last one that is left. -/
  segments : q.segments = above ++ [last]
  /-- There may have been others behind it. -/
  exists_rest : ∃ rest, p.segments = above ++ last :: rest
  /-- The start is the same. -/
  isAbsolute : q.isAbsolute = p.isAbsolute

/-- What is cut off from a path that was cut off is cut off from the whole one. -/
theorem CutOff.trans {q' : Path} {above above' : List String} {last' : String}
    (h : p.CutOff q above last) (h' : q.CutOff q' above' last') : p.CutOff q' above' last' := by
  obtain ⟨rest, hrest⟩ := h.exists_rest
  obtain ⟨rest', hrest'⟩ := h'.exists_rest
  refine ⟨h'.idle, h'.segments, ⟨rest' ++ rest, ?_⟩, h'.isAbsolute.trans h.isAbsolute⟩
  rw [hrest, ← List.singleton_append, ← List.append_assoc, ← h.segments, hrest', List.append_assoc,
    List.cons_append]

/-- The path of the folder above is cut off, unless nothing in it leads anywhere. -/
theorem exists_cutOff_of_parent? (h : p.parent? = some q)
    (hq : ∃ segment ∈ q.segments, isIdle segment = false) :
    ∃ above last, p.CutOff q above last := by
  obtain ⟨segment, hmem, hsegment⟩ := hq
  have hidle (hempty : ∀ s ∈ q.segments, s = "") : False := by
    rw [hempty segment hmem] at hsegment
    cases hsegment
  obtain ⟨first, rest, hp⟩ := p.exists_segments
  rcases parent?_cases hp h with ⟨-, -, rfl⟩ | ⟨above, last, habove, -, rfl⟩
  · exact (hidle (by decide)).elim
  · obtain ⟨hslash, habsolute⟩ := segments_of_dropIdle hp habove
    have hstart := isAbsolute_ofSegments hslash habsolute
    by_cases hnone : dropIdle above = []
    · rw [hnone] at hslash hstart hmem hidle ⊢
      cases hroot : p.isAbsolute with
      | true =>
        obtain rfl := habsolute.mp hroot
        rw [hroot] at hidle
        exact (hidle (by decide)).elim
      | false =>
        have hsegments := segments_ofSegments hslash (.inl hroot)
        rw [hsegments, List.mem_singleton] at hmem
        exact ⟨[], first, hmem ▸ hsegment, hroot ▸ hsegments, ⟨rest, hp⟩, hroot ▸ hstart⟩
    · obtain ⟨above', last', heq, hlast⟩ := exists_of_dropIdle hnone
      obtain ⟨behind, hbehind⟩ : dropIdle above <+: above := List.rdropWhile_prefix isIdle above
      obtain ⟨behind', hbehind'⟩ : dropIdle rest <+: rest := List.rdropWhile_prefix isIdle rest
      refine ⟨first :: above', last', hlast, ?_, ⟨behind ++ last :: behind', ?_⟩, hstart⟩
      · rw [segments_ofSegments hslash (.inr hnone), heq, List.cons_append]
      · rw [hp, ← hbehind', habove, ← hbehind, heq]
        simp

/-- So is the path of every folder above. -/
theorem exists_cutOff_of_mem (h : q ∈ p.ancestors)
    (hq : ∃ segment ∈ q.segments, isIdle segment = false) :
    ∃ above last, p.CutOff q above last := by
  rw [ancestors] at h
  generalize p.segments.length = n at h
  induction n generalizing p with
  | zero => cases h
  | succ n ih =>
    rw [ancestorsWithin] at h
    split at h
    · rename_i q' hparent
      rcases List.mem_cons.mp h with rfl | h
      · exact exists_cutOff_of_parent? hparent hq
      · obtain ⟨above, last, hcut⟩ := ih h
        obtain ⟨above', last', hcut'⟩ := exists_cutOff_of_parent? hparent <| by
          obtain ⟨rest, hrest⟩ := hcut.exists_rest
          exact ⟨last, by rw [hrest]; simp, hcut.idle⟩
        exact ⟨above, last, hcut'.trans hcut⟩
    · cases h

/-! ### Folders below a base -/

/-- A usable path is not empty. -/
theorem text_ne_empty (h : p.isUsable = true) : p.text ≠ "" := by
  simp only [isUsable, Bool.and_eq_true, Bool.not_eq_true', String.isEmpty_eq_false_iff] at h
  exact h.1.1

/-- A base that is not empty leads with some segment. -/
theorem lead_ne_nil (h : base.text ≠ "") : base.lead ≠ [] := by
  rcases opening_cases base with ⟨-, hempty⟩ | ⟨s, hopening, -⟩
  · exact absurd hempty h
  · have hslash : splitAt '/' (s ++ "/" ++ "") = splitAt '/' s ++ [""] := splitAt_append s ""
    rw [lead, hopening, ← String.append_empty (s := s ++ "/"), hslash, List.dropLast_concat]
    exact splitAt_ne_nil s

/-- The segments of a path below a base are those with which the base leads and the names. -/
theorem segments_below (hne : names ≠ []) (hnames : ∀ name ∈ names, IsName name) (base : Path) :
    (base.below names).segments = base.lead ++ names := by
  rw [← fullPath_ofNames hne hnames, (plain_ofNames hne hnames).segments_fullPath,
    names_ofNames hne hnames]

/-- Above a path below a base is the path with the names but the last. -/
theorem parent?_below (hbase : base.text ≠ "") (hne : names ≠ [])
    (hnames : ∀ name' ∈ names ++ [name], IsName name') :
    (base.below (names ++ [name])).parent? = some (base.below names) := by
  obtain ⟨first, rest, hlead⟩ := List.exists_cons_of_ne_nil (lead_ne_nil hbase)
  obtain ⟨above, last, rfl⟩ := (List.eq_nil_or_concat' names).resolve_left hne
  have hidle {name' : String} (h : name' ∈ above ++ [last] ++ [name]) : isIdle name' = false :=
    (hnames name' h).1
  have habove : ∀ name' ∈ above ++ [last], IsName name' :=
    fun name' hname' => hnames name' (List.mem_append_left _ hname')
  have hsegments : (base.below (above ++ [last] ++ [name])).segments =
      first :: (rest ++ (above ++ [last]) ++ [name]) := by
    rw [segments_below (by simp) hnames, hlead, List.cons_append, List.append_assoc rest]
  have htext : (base.below (above ++ [last])).text =
      "/".intercalate (first :: (rest ++ (above ++ [last]))) := by
    rw [← List.cons_append, ← hlead, ← segments_below hne habove]
    exact (intercalate_splitAt _).symm
  rw [parent?_of_segments hsegments (dropIdle_concat (hidle (by simp)) _), ← List.append_assoc,
    dropIdle_concat (hidle (by simp)), ofSegments, if_neg (by simp), List.append_assoc, ← htext]

/-- The folder above a path below a base is usable if the path is. -/
theorem isUsable_of_below (hne : names ≠ []) (hnames : ∀ name ∈ names, IsName name)
    (hlast : IsName last) (husable : (base.below (names ++ [last])).isUsable = true) :
    (base.below names).isUsable = true := by
  obtain ⟨rest, hrest⟩ := exists_opening_eq (base.below names)
  have htext : (base.below (names ++ [last])).text = (base.below names).text ++ (rest ++ last) := by
    rw [below, List.foldl_concat, join_segment hlast.2.2, ← String.append_assoc, ← hrest]
    rfl
  refine isUsable_of_append htext (fun hempty => ?_) husable
  have hcomponents := components_below hnames base
  have hnone : (⟨""⟩ : Path).components = [] := rfl
  rw [show base.below names = ⟨""⟩ from congrArg Path.mk hempty, hnone] at hcomponents
  exact hne (List.map_eq_nil_iff.mp (List.append_eq_nil_iff.mp hcomponents.symm).2)

end Path

namespace Disk

variable {base p : Path} {names : List String} {name : String}

/-- No folder strictly below a base contains what is in the base itself. -/
theorem foldersBelow_single (hname : IsName name) : foldersBelow base (base.below [name]) = [] := by
  rw [foldersBelow]
  cases habove : (base.below [name]).parent? with
  | none => rw [Path.ancestors_of_parent?_none habove, List.takeWhile_nil]
  | some q =>
    have hcomponents := Path.components_parent? habove
    rw [Path.components_below (List.forall_mem_singleton.mpr hname), List.map_singleton,
      List.dropLast_concat] at hcomponents
    rw [Path.ancestors_of_parent? habove, List.takeWhile_cons_of_neg]
    simp [Path.same, hcomponents]

/-- Of the folders strictly below a base, the nearest one has the names but the last. -/
theorem foldersBelow_concat (hbase : base.text ≠ "") (hne : names ≠ [])
    (hnames : ∀ name' ∈ names ++ [name], IsName name') :
    foldersBelow base (base.below (names ++ [name])) =
      base.below names :: foldersBelow base (base.below names) := by
  have hcomponents : (base.below names).components = base.components ++ names.map .name :=
    Path.components_below (fun name' hname' => hnames name' (List.mem_append_left _ hname')) base
  rw [foldersBelow, Path.ancestors_of_parent? (Path.parent?_below hbase hne hnames),
    List.takeWhile_cons_of_pos, foldersBelow]
  simp [Path.same, Path.startsWith, hcomponents, hne, List.isPrefixOf_iff_prefix]

end Disk

end Declgen.Files
