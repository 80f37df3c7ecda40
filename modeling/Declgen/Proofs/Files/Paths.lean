import Declgen.Files.OutputSet
import Declgen.Proofs.Text.Bytes
import Declgen.Proofs.Text.Splitting

/-!
# Full paths

The full path of a file goes through the components of its base and then through the names in the
path of the file. Empty segments of this path leave no trace, so files whose paths have the same
names have the same full path.
-/

namespace Declgen.Files

open Text

/-- The names in the path of a file: the segments that are not empty. -/
def OutputFile.names (file : OutputFile) : List String :=
  (splitAt '/' file.path).filter fun segment => segment ≠ ""

/-- A file whose path ends with a name and stays below its base. -/
structure OutputFile.Plain (file : OutputFile) : Prop where
  /-- The last segment is a name. -/
  last : (splitAt '/' file.path).getLast? ≠ some ""
  /-- No name goes anywhere else. -/
  stays : ∀ name ∈ file.names, name ≠ "." ∧ name ≠ ".."

namespace Path

/-- What precedes the names below a base: the base with a slash at its end, or nothing. -/
def opening (base : Path) : String :=
  if base.text.isEmpty || base.text.toList.getLast? = some '/' then base.text
  else base.text ++ "/"

/-- The segments of a base without an empty one at the end. -/
def lead (base : Path) : List String := (splitAt '/' base.opening).dropLast

/-- The components of a base as those of a path below it begin. -/
def leadComponents (base : Path) : List Component :=
  match base.lead with
  | [] => []
  | first :: rest =>
    if base.isAbsolute then .root :: inner rest
    else if first = "." then .here :: inner rest
    else inner (first :: rest)

variable {base : Path} {segment : String}

/-- An opening is empty or ends with a slash. -/
theorem opening_cases (base : Path) :
    base.opening = "" ∧ base.text = "" ∨
      ∃ s, base.opening = s ++ "/" ∧ base.text ≠ "" ∧ (base.text = s ∨ base.text = s ++ "/") := by
  unfold opening
  by_cases hempty : base.text = ""
  · exact .inl ⟨by simp [hempty], hempty⟩
  · refine .inr ?_
    by_cases hlast : base.text.toList.getLast? = some '/'
    · obtain ⟨cs, hcs⟩ := List.getLast?_eq_some_iff.mp hlast
      have htext : base.text = String.ofList cs ++ "/" := by
        rw [← String.toList_inj, hcs, String.toList_append, String.toList_ofList]
        rfl
      exact ⟨String.ofList cs, by simp [hlast, ← htext], hempty, .inr htext⟩
    · exact ⟨base.text, by simp [hempty, hlast], hempty, .inl rfl⟩

/-- An opening starts with the text of its base. -/
theorem exists_opening_eq (base : Path) : ∃ rest, base.opening = base.text ++ rest := by
  unfold opening
  split
  · exact ⟨"", String.append_empty.symm⟩
  · exact ⟨"/", rfl⟩

/-- What the text of a usable path starts with is usable. -/
theorem isUsable_of_append {p q : Path} {rest : String} (h : q.text = p.text ++ rest)
    (hp : p.text ≠ "") (hq : q.isUsable = true) : p.isUsable = true := by
  simp only [isUsable, h, String.toList_append, Text.byteLength_append, Bool.and_eq_true,
    decide_eq_true_eq, Bool.not_eq_true', List.contains_eq_mem, List.mem_append,
    decide_eq_false_iff_not] at hq ⊢
  exact ⟨⟨by simpa using hp, by omega⟩, fun hmem => hq.2 (.inl hmem)⟩

/-- A segment is joined to the opening of a base. -/
theorem join_segment (hsegment : '/' ∉ segment.toList) :
    base.join ⟨segment⟩ = ⟨base.opening ++ segment⟩ := by
  have habsolute : isAbsolute ⟨segment⟩ = false := by
    rw [isAbsolute, decide_eq_false_iff_not]
    exact fun hhead => hsegment (List.mem_of_head? hhead)
  rw [join, opening, habsolute, if_neg Bool.false_ne_true]
  split <;> rfl

/-- An empty segment opens nothing new. -/
theorem opening_join_empty : (base.join ⟨""⟩).opening = base.opening := by
  rw [join_segment (by simp), String.append_empty]
  rcases opening_cases base with ⟨hopening, -⟩ | ⟨s, hopening, -⟩
  · rw [hopening]
    rfl
  · rw [hopening]
    simp [opening]

/-- A name is followed by a slash. -/
theorem opening_join_name (hsegment : '/' ∉ segment.toList) (hne : segment ≠ "") :
    (base.join ⟨segment⟩).opening = base.opening ++ segment ++ "/" := by
  rw [join_segment hsegment]
  have hlast : (base.opening ++ segment).toList.getLast? ≠ some '/' := by
    rw [String.toList_append, List.getLast?_append_of_ne_nil _ (by simpa using hne)]
    exact fun hlast => hsegment (List.mem_of_getLast? hlast)
  have hempty : base.opening ++ segment ≠ "" := by simp [hne]
  generalize base.opening ++ segment = text at hlast hempty
  rw [opening, if_neg (by simp [hempty, hlast])]

/-- Segments that end with a name add their names to the opening of a base. -/
theorem foldl_join {segments : List String} (hsegments : ∀ segment ∈ segments, '/' ∉ segment.toList)
    (hne : segments ≠ []) (hlast : segments.getLast? ≠ some "") :
    segments.foldl (fun p segment => p.join ⟨segment⟩) base =
      ⟨base.opening ++ "/".intercalate (segments.filter fun segment => segment ≠ "")⟩ := by
  induction segments generalizing base with
  | nil => exact absurd rfl hne
  | cons first rest ih =>
    have hfirst := hsegments first List.mem_cons_self
    cases rest with
    | nil =>
      have hname : first ≠ "" := fun heq => hlast (by rw [heq]; rfl)
      simp [join_segment hfirst, hname]
    | cons next rest =>
      have hlast' : (next :: rest).getLast? ≠ some "" := by rwa [List.getLast?_cons_cons] at hlast
      rw [List.foldl_cons, ih (fun segment hsegment => hsegments segment
        (List.mem_cons_of_mem _ hsegment)) (List.cons_ne_nil _ _) hlast']
      by_cases hname : first = ""
      · subst hname
        rw [opening_join_empty, List.filter_cons_of_neg (a := "") (by simp)]
      · have hnames : (next :: rest).filter (fun segment => segment ≠ "") ≠ [] := by
          refine List.ne_nil_of_mem (List.mem_filter.mpr
            ⟨List.getLast_mem (List.cons_ne_nil next rest), ?_⟩)
          rw [List.getLast?_eq_some_getLast (List.cons_ne_nil _ _)] at hlast'
          simpa using hlast'
        rw [opening_join_name hfirst hname,
          List.filter_cons_of_pos (a := first) (by simpa using hname),
          String.intercalate_cons_of_ne_nil hnames]
        simp only [String.append_assoc]

end Path

namespace OutputFile

variable {file : OutputFile} {base : Path}

/-- A name of a file is neither empty nor does it have a slash. -/
theorem mem_names {name : String} (h : name ∈ file.names) : name ≠ "" ∧ '/' ∉ name.toList := by
  obtain ⟨hmem, hne⟩ := List.mem_filter.mp h
  exact ⟨by simpa using hne, (mem_splitAt hmem).1⟩

/-- A plain file has a name. -/
theorem Plain.names_ne_nil (h : file.Plain) : file.names ≠ [] := by
  have hne : splitAt '/' file.path ≠ [] := splitAt_ne_nil _
  have hlast := h.last
  rw [List.getLast?_eq_some_getLast hne] at hlast
  exact List.ne_nil_of_mem (List.mem_filter.mpr ⟨List.getLast_mem hne, by simpa using hlast⟩)

/-- The full path of a file is made of the opening of its base and its names. -/
theorem Plain.fullPath_eq (h : file.Plain) (base : Path) :
    file.fullPath base = ⟨base.opening ++ "/".intercalate file.names⟩ :=
  Path.foldl_join (fun _ hsegment => (mem_splitAt hsegment).1) (splitAt_ne_nil _) h.last

/-- The segments of a full path are those of the base and the names of the file. -/
theorem Plain.segments_fullPath (h : file.Plain) (base : Path) :
    (file.fullPath base).segments = base.lead ++ file.names := by
  have hnames : splitAt '/' ("/".intercalate file.names) = file.names :=
    splitAt_intercalate h.names_ne_nil fun name hname => (mem_names hname).2
  rw [h.fullPath_eq, Path.segments, Path.lead]
  rcases Path.opening_cases base with ⟨hopening, -⟩ | ⟨s, hopening, -⟩
  · rw [hopening, String.empty_append, hnames]
    rfl
  · have happend (t : String) : splitAt '/' (s ++ "/" ++ t) = splitAt '/' s ++ splitAt '/' t :=
      splitAt_append s t
    have hslash : splitAt '/' (s ++ "/") = splitAt '/' s ++ [""] := by
      rw [← String.append_empty (s := s ++ "/")]
      exact happend ""
    rw [hopening, happend, hnames, hslash, List.dropLast_concat]

/-- A full path is absolute if its base is. -/
theorem Plain.isAbsolute_fullPath (h : file.Plain) (base : Path) :
    (file.fullPath base).isAbsolute = base.isAbsolute := by
  obtain ⟨name, names, hnames⟩ := List.exists_cons_of_ne_nil h.names_ne_nil
  rw [h.fullPath_eq, Path.isAbsolute, Path.isAbsolute]
  rcases Path.opening_cases base with ⟨hopening, htext⟩ | ⟨s, hopening, htext, hbase⟩
  · obtain ⟨hne, hslash⟩ := mem_names (hnames ▸ List.mem_cons_self)
    obtain ⟨c, cs, hcs⟩ := List.exists_cons_of_ne_nil (l := name.toList) (by simpa using hne)
    have hc : c ≠ '/' := fun heq => hslash (by rw [hcs, heq]; exact List.mem_cons_self)
    rw [hopening, htext, String.empty_append, hnames, String.toList_intercalate]
    cases names <;> simp [hcs, hc]
  · have hhead : base.opening.toList.head? = base.text.toList.head? := by
      rcases hbase with hbase | hbase
      · obtain ⟨c, cs, hcs⟩ :=
          List.exists_cons_of_ne_nil (l := base.text.toList) (by simpa using htext)
        rw [hopening, ← hbase, String.toList_append, hcs]
        rfl
      · rw [hopening, hbase]
    obtain ⟨c, cs, hcs⟩ := List.exists_cons_of_ne_nil (l := base.opening.toList)
      (by simp [hopening])
    rw [← hhead, String.toList_append, hcs]
    rfl

/-- Names are components. -/
theorem Plain.inner_names (h : file.Plain) :
    Path.inner file.names = file.names.map Component.name := by
  have hidle : file.names.filter (fun segment => !Path.isIdle segment) = file.names := by
    refine List.filter_eq_self.mpr fun name hname => ?_
    simp [Path.isIdle, (mem_names hname).1, (h.stays name hname).1]
  rw [Path.inner, hidle]
  exact List.map_congr_left fun name hname => by
    rw [Path.component, if_neg (h.stays name hname).2]

/-- The inner components of segments are those of their parts. -/
theorem inner_append (segments segments' : List String) :
    Path.inner (segments ++ segments') = Path.inner segments ++ Path.inner segments' := by
  rw [Path.inner, List.filter_append, List.map_append]
  rfl

/-- The components of a full path are those of the base and the names of the file. -/
theorem Plain.components_fullPath (h : file.Plain) (base : Path) :
    (file.fullPath base).components = base.leadComponents ++ file.names.map .name := by
  rw [Path.components, h.segments_fullPath, h.isAbsolute_fullPath, Path.leadComponents]
  cases hlead : base.lead with
  | nil =>
    obtain ⟨name, names, hnames⟩ := List.exists_cons_of_ne_nil h.names_ne_nil
    have hopening : base.isAbsolute = false := by
      rcases Path.opening_cases base with ⟨-, htext⟩ | ⟨s, hopening, -⟩
      · rw [Path.isAbsolute, htext]
        rfl
      · have hslash : splitAt '/' (s ++ "/" ++ "") = splitAt '/' s ++ [""] := splitAt_append s ""
        rw [Path.lead, hopening, ← String.append_empty (s := s ++ "/"), hslash,
          List.dropLast_concat] at hlead
        exact absurd hlead (splitAt_ne_nil s)
    have hname : name ≠ "." := (h.stays name (hnames ▸ List.mem_cons_self)).1
    simp only [List.nil_append, hnames, hopening, Bool.false_eq_true, if_false, hname]
    rw [← hnames, h.inner_names]
  | cons first rest =>
    simp only [List.cons_append, inner_append, h.inner_names]
    split
    · rfl
    · split
      · rfl
      · rw [← List.cons_append, inner_append, h.inner_names]

end OutputFile

namespace Path

variable {base p : Path}

/-- An idle segment gives no component. -/
theorem inner_cons_of_idle {segment : String} (h : isIdle segment = true)
    (rest : List String) : inner (segment :: rest) = inner rest := by
  rw [Path.inner, List.filter_cons_of_neg (by simp [h])]
  rfl

/-- A segment that leads somewhere gives one component. -/
theorem inner_cons_of_not_idle {segment : String} (h : ¬isIdle segment = true)
    (rest : List String) :
    inner (segment :: rest) = component segment :: inner rest := by
  rw [Path.inner, List.filter_cons_of_pos (by simpa using h)]
  rfl

/-- Empty segments give no components. -/
theorem inner_of_all_empty {segments : List String} (h : segments.all (·.isEmpty) = true) :
    inner segments = [] := by
  induction segments with
  | nil => rfl
  | cons segment rest ih =>
    rw [List.all_cons, Bool.and_eq_true] at h
    rw [inner_cons_of_idle (by simp_all [isIdle]), ih h.2]

/-- The first segment of an absolute path is empty, and there is another one. -/
theorem segments_of_isAbsolute (h : p.isAbsolute = true) :
    ∃ next rest, p.segments = "" :: next :: rest := by
  obtain ⟨cs, hcs⟩ := List.head?_eq_some_iff.mp (of_decide_eq_true h)
  have hsegments : p.segments = "" :: (splitWhere (· == '/') cs).map String.ofList := by
    rw [segments, splitAt, hcs]
    rfl
  obtain ⟨next, rest, hrest⟩ := List.exists_cons_of_ne_nil (splitWhere_ne_nil (· == '/') cs)
  rw [hrest, List.map_cons] at hsegments
  exact ⟨_, _, hsegments⟩

/-- The segments of a base are its lead, up to an empty one. -/
theorem segments_cases (base : Path) :
    base.segments = base.lead ∨ base.segments = base.lead ++ [""] := by
  rw [segments, lead]
  rcases opening_cases base with ⟨hopening, htext⟩ | ⟨s, hopening, -, hbase⟩
  · rw [hopening, htext]
    exact .inr rfl
  · have hslash : splitAt '/' (s ++ "/") = splitAt '/' s ++ [""] := by
      have happend : splitAt '/' (s ++ "/" ++ "") = splitAt '/' s ++ [""] := splitAt_append s ""
      rwa [String.append_empty] at happend
    rw [hopening, hslash, List.dropLast_concat]
    rcases hbase with rfl | hbase
    · exact .inl rfl
    · exact .inr (hbase ▸ hslash)

/-- A slash at its end adds no component to a base. -/
theorem leadComponents_eq (base : Path) : base.leadComponents = base.components := by
  rw [components, leadComponents]
  rcases segments_cases base with hsegments | hsegments
  · rewrite [hsegments]
    rfl
  · have hempty : inner [""] = [] := rfl
    rw [hsegments]
    cases hlead : base.lead with
    | nil =>
      have hrelative : base.isAbsolute ≠ true := by
        intro habsolute
        obtain ⟨next, rest, heq⟩ := segments_of_isAbsolute habsolute
        rw [hsegments, hlead] at heq
        cases heq
      simp [hrelative, hempty]
    | cons first rest =>
      simp only [List.cons_append, OutputFile.inner_append, hempty, List.append_nil]
      rw [← List.cons_append, OutputFile.inner_append, hempty, List.append_nil]

end Path

namespace OutputFile

variable {file : OutputFile} {base : Path}

/-- A path that ends with a slash has a full path that does. -/
theorem getLast?_segments_fullPath (h : (splitAt '/' file.path).getLast? = some "")
    (base : Path) : (file.fullPath base).segments.getLast? = some "" := by
  obtain ⟨above, habove⟩ := List.getLast?_eq_some_iff.mp h
  rw [fullPath, habove, List.foldl_concat, Path.join_segment (by simp), String.append_empty]
  generalize above.foldl (fun p segment => p.join ⟨segment⟩) base = q
  rw [Path.segments]
  rcases Path.opening_cases q with ⟨hopening, -⟩ | ⟨s, hopening, -⟩
  · rw [hopening]
    rfl
  · have hslash : splitAt '/' (s ++ "/" ++ "") = splitAt '/' s ++ [""] := splitAt_append s ""
    rw [hopening, ← String.append_empty (s := s ++ "/"), hslash, List.getLast?_concat]

/-- Two files have the same full path from a base if and only if their paths have the same
names. -/
theorem Plain.same_iff {file' : OutputFile} (h : file.Plain) (h' : file'.Plain) (base : Path) :
    (file.fullPath base).same (file'.fullPath base) = true ↔ file.names = file'.names := by
  rw [Path.same, decide_eq_true_iff, h.components_fullPath, h'.components_fullPath,
    List.append_cancel_left_eq]
  exact (List.map_injective_iff.mpr fun _ _ => Component.name.inj).eq_iff

end OutputFile

end Declgen.Files
