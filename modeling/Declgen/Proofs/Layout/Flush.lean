import Declgen.Proofs.Layout.Chars

/-!
# Flush passages

A flush passage starts and ends at the depth at which it stands, however deep it goes in between,
and each of its lines is a single line. Everything that types are written with is flush, and so are
passages that are put together from flush ones. The text of such a passage starts without blanks, so
the texts of the parts are put together in the same way as the parts. When the text is cut into
lines again, they are those of the passage.
-/

namespace Declgen.Layout

open Text

/-! ### Single lines -/

/-- Only the empty text has no lines. -/
theorem eq_empty_of_lines {s : String} (h : lines s = []) : s = "" := by
  by_cases hs : '\n' ∈ s.toList
  · obtain ⟨first, rest, hchars, hfirst⟩ := List.eq_append_cons_of_mem hs
    have hlines : lines s = chomp (String.ofList first) :: linesFrom [] rest := by
      rw [lines, hchars, linesFrom_append hfirst, List.reverse_nil, List.nil_append]
    rw [hlines] at h
    cases h
  · rw [lines_of_notMem hs] at h
    split at h
    · rename_i hempty
      simpa using hempty
    · cases h

/-- A text of one line has no line feed in it after it has been trimmed. -/
theorem notMem_trim {cs : List Char} (h : (lines (String.ofList cs)).length ≤ 1) :
    '\n' ∉ trim cs := by
  intro hmem
  obtain ⟨first, rest, rfl, hfirst⟩ :=
    List.eq_append_cons_of_mem ((isInfix_trim cs).subset hmem)
  -- Nothing follows the line feed, so it is trimmed off.
  have hrest : rest = [] := by
    rw [lines, String.toList_ofList, linesFrom_append hfirst, List.length_cons] at h
    have hnil : lines (String.ofList rest) = [] := by
      rw [lines, String.toList_ofList, ← List.length_eq_zero_iff]
      omega
    simpa using eq_empty_of_lines hnil
  subst hrest
  have hsuffix : trimStart (first ++ ['\n']) <:+ first ++ ['\n'] := List.dropWhile_suffix _
  rcases List.suffix_concat_iff.mp hsuffix with hnil | ⟨before, hbefore, hsuffix⟩
  · rw [trim, hnil] at hmem
    cases hmem
  · have htrim : trimEnd (before ++ ['\n']) = trimEnd before := by
      have hblank : isBlank '\n' = true := by decide
      rw [trimEnd, List.reverse_concat, List.dropWhile_cons_of_pos hblank, trimEnd]
    rw [trim, hbefore, htrim] at hmem
    exact hfirst (hsuffix.subset ((isPrefix_trimEnd before).subset hmem))

/-- The lines of a comment are single lines. -/
theorem notMem_of_mem_commentLines {doc line : String} (h : line ∈ commentLines doc) :
    '\n' ∉ line.toList := by
  unfold commentLines at h
  dsimp only at h
  split at h
  · rename_i hone
    rw [List.mem_singleton.mp h]
    simpa using notMem_trim hone
  · rcases List.mem_cons.mp h with rfl | h
    · decide
    rcases List.mem_append.mp h with h | h
    · obtain ⟨part, hpart, rfl⟩ := List.mem_map.mp h
      have hpart := notMem_of_mem_lines hpart
      unfold commentLine
      dsimp only
      split
      · decide
      · have htrim : '\n' ∉ trimEnd part.toList :=
          fun hmem => hpart ((isPrefix_trimEnd _).subset hmem)
        simpa using htrim
    · rw [List.mem_singleton.mp h]
      decide

/-! ### Flush passages -/

/-- The last line of a list is continued by the first line of another. -/
theorem joinLines_concat (ls : List Line) (l m : Line) (ms : List Line) :
    joinLines (ls ++ [l]) (m :: ms) = ls ++ ⟨l.depth, l.body ++ m.body⟩ :: ms := by
  rw [joinLines_append (List.cons_ne_nil l [])]
  rfl

namespace Passage

variable {p q : Passage}

/-- The first line and the last one stand at the outermost depth, and all are single lines. -/
structure Flush (p : Passage) : Prop where
  /-- The first line stands at the outermost depth. -/
  first : ∃ body ls, p.lines = ⟨0, body⟩ :: ls
  /-- So does the last line. -/
  last : ∃ ls body, p.lines = ls ++ [⟨0, body⟩]
  /-- There are no line feeds within a line. -/
  single : ∀ l ∈ p.lines, '\n' ∉ l.body.toList

/-- A text makes a flush passage. -/
theorem flush_ofString (s : String) : (ofString s).Flush := by
  have hne : Text.splitAt '\n' s ≠ [] := Text.splitAt_ne_nil s
  constructor
  · obtain ⟨part, parts, hparts⟩ := List.exists_cons_of_ne_nil hne
    exact ⟨part, parts.map (⟨0, ·⟩), by rw [ofString, hparts, List.map_cons]⟩
  · obtain ⟨parts, part, hparts⟩ := (List.eq_nil_or_concat' _).resolve_left hne
    exact ⟨parts.map (⟨0, ·⟩), part, by rw [ofString, hparts, List.map_append]; rfl⟩
  · exact List.forall_mem_map.mpr fun part hpart => (mem_splitAt hpart).1

/-- Lines between braces are a flush passage. -/
theorem flush_braced {ls : List Line} (h : ∀ l ∈ ls, '\n' ∉ l.body.toList) :
    (braced ls).Flush := by
  refine ⟨⟨_, _, rfl⟩, ⟨⟨0, "\x7b"⟩ :: ls.map Line.deeper, "\x7d", rfl⟩, ?_⟩
  rw [braced, List.forall_mem_cons, List.forall_mem_append, List.forall_mem_map]
  exact ⟨by decide, h, by simp⟩

/-- The lines of two passages that are put together. -/
theorem lines_append {ls ms : List Line} {a b : String} (hp : p.lines = ls ++ [⟨0, a⟩])
    (hq : q.lines = ⟨0, b⟩ :: ms) : (p ++ q).lines = ls ++ ⟨0, a ++ b⟩ :: ms := by
  change joinLines p.lines q.lines = _
  rw [hp, hq, joinLines_concat]

/-- Flush passages can be put together. -/
theorem Flush.append (hp : p.Flush) (hq : q.Flush) : (p ++ q).Flush := by
  obtain ⟨ls, a, hls⟩ := hp.last
  obtain ⟨b, ms, hms⟩ := hq.first
  have hlines := lines_append hls hms
  constructor
  · cases ls with
    | nil => exact ⟨a ++ b, ms, hlines⟩
    | cons l ls =>
      obtain ⟨body, rest, hfirst⟩ := hp.first
      rw [hls, List.cons_append, List.cons.injEq] at hfirst
      exact ⟨body, ls ++ ⟨0, a ++ b⟩ :: ms, by rw [hlines, hfirst.1, List.cons_append]⟩
  · rcases List.eq_nil_or_concat' ms with rfl | ⟨ms, m, rfl⟩
    · exact ⟨ls, a ++ b, hlines⟩
    · obtain ⟨rest, body, hlast⟩ := hq.last
      rw [hms, ← List.cons_append] at hlast
      obtain ⟨-, hm⟩ := List.append_inj' hlast rfl
      refine ⟨ls ++ ⟨0, a ++ b⟩ :: ms, body, ?_⟩
      rw [hlines, hm, List.append_assoc, List.cons_append]
  · have hp := hp.single
    have hq := hq.single
    rw [hls, List.forall_mem_append, List.forall_mem_singleton] at hp
    rw [hms, List.forall_mem_cons] at hq
    rw [hlines, List.forall_mem_append, List.forall_mem_cons, String.toList_append,
      List.mem_append, not_or]
    exact ⟨hp.1, ⟨hp.2, hq.1⟩, hq.2⟩

/-- So can several, with a text between them. -/
theorem flush_join (separator : String) {ps : List Passage} (h : ∀ p ∈ ps, p.Flush) :
    (join separator ps).Flush := by
  induction ps with
  | nil => exact flush_ofString ""
  | cons p ps ih =>
    rw [List.forall_mem_cons] at h
    cases ps with
    | nil => exact h.1
    | cons q ps => exact (h.1.append (flush_ofString separator)).append (ih h.2)

/-- Lines that are completed remain single lines. -/
theorem Flush.single_toLines (h : p.Flush) : ∀ l ∈ p.toLines, '\n' ∉ l.body.toList := by
  have hcomplete {ls : List Line} (h : ∀ l ∈ ls, '\n' ∉ l.body.toList) :
      ∀ l ∈ complete ls, '\n' ∉ l.body.toList := by
    induction ls with
    | nil => exact h
    | cons l ls ih =>
      rw [List.forall_mem_cons] at h
      cases ls with
      | nil =>
        rw [complete]
        split
        · exact List.forall_mem_nil _
        · exact List.forall_mem_singleton.mpr h.1
      | cons k ls =>
        rw [complete, List.forall_mem_cons]
        exact ⟨fun hmem => h.1 ((isPrefix_chomp l.body).subset hmem), ih h.2⟩
  exact hcomplete h.single

/-! ### Texts -/

section

variable (unit : String)

/-- The text of a flush passage starts without blanks. -/
theorem Flush.toList_toText (h : p.Flush) : (p.toText unit).toList = p.chars unit 0 := by
  obtain ⟨body, ls, hfirst⟩ := h.first
  obtain ⟨lines⟩ := p
  subst hfirst
  exact toList_toText_cons unit ⟨0, body⟩ ls

/-- The text of flush passages that are put together is their texts, one after the other. -/
theorem toText_append (hp : p.Flush) (hq : q.Flush) :
    (p ++ q).toText unit = p.toText unit ++ q.toText unit := by
  rw [← String.toList_inj, String.toList_append, (hp.append hq).toList_toText, hp.toList_toText,
    hq.toList_toText, chars_append]

/-- The lines of a passage that is made from a text are the lines of the text. -/
theorem map_toText_ofString (s : String) :
    (ofString s).lines.map (Line.toText unit) = splitAt '\n' s := by
  rw [ofString, List.map_map]
  exact (List.map_congr_left fun part _ => String.empty_append).trans (List.map_id _)

/-- A text that has been made into a passage is still the same. -/
theorem toText_ofString (s : String) : (ofString s).toText unit = s := by
  rw [toText, map_toText_ofString]
  exact intercalate_splitAt s

/-- The text of flush passages that are joined is their texts with the separator between them. -/
theorem toText_join (separator : String) {ps : List Passage} (h : ∀ p ∈ ps, p.Flush) :
    (join separator ps).toText unit = separator.intercalate (ps.map (toText unit)) := by
  induction ps with
  | nil => exact toText_ofString unit ""
  | cons p ps ih =>
    rw [List.forall_mem_cons] at h
    cases ps with
    | nil => rw [join, List.map_singleton, String.intercalate_singleton]
    | cons q ps =>
      have hseparator := flush_ofString separator
      rw [join, toText_append unit (h.1.append hseparator) (flush_join separator h.2),
        toText_append unit h.1 hseparator, toText_ofString, ih h.2, List.map_cons, List.map_cons,
        List.map_cons, String.intercalate_cons_cons]

end

end Passage

/-! ### Cutting texts into lines -/

variable {unit : String} (hunit : unit.toList.all isIndent = true)
include hunit

/-- No line break stands in the text of a line that has none. -/
theorem notMem_toText {l : Line} (h : '\n' ∉ l.body.toList) : '\n' ∉ (l.toText unit).toList := by
  rw [Line.toText, String.toList_append, List.mem_append, not_or]
  exact ⟨notMem_indent (all_isIndent_copies hunit l.depth), h⟩

/-- Indentation does not end with a carriage return. -/
theorem chomp_toText (l : Line) : chomp (l.toText unit) = l.chomp.toText unit := by
  obtain ⟨depth, body⟩ := l
  have hreturn : '\r' ∉ (copies depth unit).toList := fun hmem =>
    absurd (List.all_eq_true.mp (all_isIndent_copies hunit depth) _ hmem) (by decide)
  by_cases hbody : body = ""
  · subst hbody
    have hempty : chomp "" = "" := by decide
    rw [Line.toText, Line.chomp, Line.toText, hempty, String.append_empty, chomp_of_notMem hreturn]
  · exact chomp_append _ hbody

/-- Between the line feeds of the text of a flush passage stand the lines of the passage. -/
theorem Passage.Flush.splitAt_toText {p : Passage} (h : p.Flush) :
    splitAt '\n' (p.toText unit) = p.lines.map (Line.toText unit) := by
  obtain ⟨body, ls, hlines⟩ := h.first
  refine splitAt_intercalate (by simp [hlines]) ?_
  exact List.forall_mem_map.mpr fun l hl => notMem_toText hunit (h.single l hl)

/-- The text of a flush passage is cut into the lines of the passage. -/
theorem Passage.Flush.lines_toText {p : Passage} (h : p.Flush) :
    Text.lines (p.toText unit) = p.toLines.map (Line.toText unit) := by
  have hcut {ls : List Line} {body : String}
      (hsingle : ∀ l ∈ ls ++ [⟨0, body⟩], '\n' ∉ l.body.toList) :
      Text.lines ("\n".intercalate ((ls ++ [Line.mk 0 body]).map (Line.toText unit))) =
        (Passage.complete (ls ++ [⟨0, body⟩])).map (Line.toText unit) := by
    induction ls with
    | nil =>
      rw [List.nil_append, List.forall_mem_singleton] at hsingle
      have hbody : (Line.mk 0 body).toText unit = body := String.empty_append
      rw [List.nil_append, List.map_singleton, String.intercalate_singleton, hbody,
        lines_of_notMem hsingle, Passage.complete]
      cases body.isEmpty with
      | true => rfl
      | false => exact congrArg (fun s => [s]) hbody.symm
    | cons l ls ih =>
      rw [List.cons_append, List.forall_mem_cons] at hsingle
      have hcomplete : Passage.complete (l :: (ls ++ [Line.mk 0 body])) =
          l.chomp :: Passage.complete (ls ++ [⟨0, body⟩]) := by cases ls <;> rfl
      rw [List.cons_append, hcomplete, List.map_cons, String.intercalate_cons_of_ne_nil (by simp),
        Text.lines_append (notMem_toText hunit hsingle.1), ih hsingle.2, List.map_cons,
        chomp_toText hunit]
  obtain ⟨ls, body, hlast⟩ := h.last
  have hsingle := h.single
  rw [hlast] at hsingle
  rw [Passage.toText, Passage.toLines, hlast]
  exact hcut hsingle

end Declgen.Layout
