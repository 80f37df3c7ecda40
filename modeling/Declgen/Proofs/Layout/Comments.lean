import Declgen.Layout.Comment
import Declgen.Layout.Line
import Declgen.Proofs.Text.Scanning

/-!
# Comments between lines of code

A documentation comment is written on lines of its own, and nothing in its text ends it early. So a
scan of laid-out lines sees every comment as one piece between whole lines of code, and without the
lines of comments the code is still there as it was.
-/

namespace Declgen.Layout

open Text

/-! ### The text of a comment -/

/-- No comment ends within a guarded text. -/
theorem notInfix_guardCommentEnd (cs : List Char) : ¬ ['*', '/'] <:+: guardCommentEnd cs := by
  induction cs using guardCommentEnd.induct with
  | case1 rest ih => simpa [guardCommentEnd, List.infix_cons_iff] using ih
  | case2 c rest hend ih =>
    rw [guardCommentEnd, List.infix_cons_iff, not_or]
    · refine ⟨fun hprefix => ?_, ih⟩
      rw [List.cons_prefix_cons] at hprefix
      obtain ⟨rfl, hprefix⟩ := hprefix
      -- The first character of what follows is guarded into itself.
      cases rest with
      | nil => simp [guardCommentEnd] at hprefix
      | cons d rest =>
        have hslash : d ≠ '/' := by
          rintro rfl
          exact hend rest rfl rfl
        unfold guardCommentEnd at hprefix
        split at hprefix
        · rename_i heq
          cases heq
          simp at hprefix
        · rename_i heq
          cases heq
          simp [hslash.symm] at hprefix
        · cases ‹d :: rest = []›
    · exact hend
  | case3 => simp [guardCommentEnd]

/-- What is left after blanks have been taken from the end is a beginning. -/
theorem isPrefix_trimEnd (cs : List Char) : trimEnd cs <+: cs := by
  have hsuffix := List.dropWhile_suffix isBlank (l := cs.reverse)
  rw [← List.reverse_prefix, List.reverse_reverse] at hsuffix
  exact hsuffix

/-- What is left after blanks have been taken from both ends is a part. -/
theorem isInfix_trim (cs : List Char) : trim cs <:+: cs :=
  (isPrefix_trimEnd _).isInfix.trans (List.dropWhile_suffix isBlank).isInfix

/-- A text without blanks at its end does not end with a blank. -/
theorem isBlank_getLast?_trimEnd {cs : List Char} {c : Char} (h : (trimEnd cs).getLast? = some c) :
    isBlank c = false := by
  rw [trimEnd, List.getLast?_reverse] at h
  have := List.head?_dropWhile_not isBlank cs.reverse
  rw [h] at this
  simpa using this

/-- A line without its carriage return is a beginning of the line. -/
theorem isPrefix_chomp (s : String) : (chomp s).toList <+: s.toList := by
  unfold chomp
  split
  · rw [String.toList_ofList]
    exact List.dropLast_prefix _
  · exact List.prefix_refl _

/-- A line of a text is a stretch of the text. -/
theorem infix_of_mem_lines {s line : String} (h : line ∈ lines s) : line.toList <:+: s.toList := by
  have hfrom (current cs : List Char) (h : line ∈ linesFrom current cs) :
      line.toList <:+: current.reverse ++ cs := by
    induction cs generalizing current with
    | nil =>
      rw [linesFrom] at h
      split at h
      · cases h
      · have hline : line.toList = current.reverse ++ [] := by
          rw [List.mem_singleton.mp h, String.toList_ofList, List.append_nil]
        exact hline ▸ List.infix_refl _
    | cons c cs ih =>
      rw [linesFrom] at h
      split at h
      · rcases List.mem_cons.mp h with rfl | h
        · have hprefix := isPrefix_chomp (String.ofList current.reverse)
          rw [String.toList_ofList] at hprefix
          exact hprefix.isInfix.trans (List.prefix_append _ _).isInfix
        · refine (ih [] h).trans ?_
          rw [List.reverse_nil, List.nil_append]
          exact ⟨current.reverse ++ [c], [], by simp⟩
      · have := ih (c :: current) h
        rwa [List.reverse_cons, List.append_assoc, List.singleton_append] at this
  exact hfrom [] s.toList h

/-- A line of a comment does not end with a carriage return. -/
theorem chomp_of_mem_commentLines {doc line : String} (h : line ∈ commentLines doc) :
    chomp line = line := by
  suffices hlast : line.toList.getLast? ≠ some '\r' by rw [chomp, if_neg hlast]
  unfold commentLines at h
  dsimp only at h
  split at h
  · have hend : " */".toList.getLast? = some '/' := by decide
    rw [List.mem_singleton.mp h, String.toList_append, List.getLast?_append, hend]
    simp
  · rcases List.mem_cons.mp h with rfl | h
    · decide
    rcases List.mem_append.mp h with h | h
    · obtain ⟨part, -, rfl⟩ := List.mem_map.mp h
      unfold commentLine
      dsimp only
      split
      · decide
      · rename_i hempty
        simp only [String.toList_append, String.toList_ofList, List.getLast?_append]
        cases hlast : (trimEnd part.toList).getLast? with
        | none => exact absurd (List.getLast?_eq_none_iff.mp hlast) (by simpa using hempty)
        | some c =>
          have hblank := isBlank_getLast?_trimEnd hlast
          rw [Option.some_or, ne_eq, Option.some.injEq]
          rintro rfl
          exact absurd hblank (by decide)
    · rw [List.mem_singleton.mp h]
      decide

/-! ### Lines as text -/

/-- Whether a character may indent a line. -/
def isIndent (c : Char) : Bool := c == ' ' || c == '\t'

/-- Complete lines as text, each with a line break. -/
def lineChars (unit : String) (ls : List Line) : List Char :=
  ls.flatMap fun l => (l.toText unit).toList ++ ['\n']

section Text

variable {unit : String} {depth : Nat}

/-- The text of lines is that of their parts, one after the other. -/
theorem lineChars_append (ls ms : List Line) :
    lineChars unit (ls ++ ms) = lineChars unit ls ++ lineChars unit ms := List.flatMap_append

/-- The text of the first line comes first. -/
theorem lineChars_cons (l : Line) (ls : List Line) :
    lineChars unit (l :: ls) =
      (copies l.depth unit).toList ++ l.body.toList ++ ['\n'] ++ lineChars unit ls := by
  rw [lineChars, List.flatMap_cons, Line.toText, String.toList_append]
  rfl

/-- One level of depth is made of characters that may indent. -/
theorem all_isIndent_unit (indent : Indent) : indent.unit.toList.all isIndent = true := by
  cases indent with
  | spaces width =>
    rw [Indent.unit, String.toList_ofList, List.all_eq_true]
    intro c hc
    rw [List.eq_of_mem_replicate hc]
    rfl
  | tab => decide

/-- So are several levels. -/
theorem all_isIndent_copies (hunit : unit.toList.all isIndent = true) (depth : Nat) :
    (copies depth unit).toList.all isIndent = true := by
  induction depth with
  | zero => rfl
  | succ depth ih =>
    have hsucc : copies (depth + 1) unit = unit ++ copies depth unit := by
      rw [copies, List.replicate_succ, String.join_cons]
      rfl
    rw [hsucc, String.toList_append, List.all_append, hunit, ih]
    rfl

/-- What indents a line is scanned as code. -/
theorem scans_indent {cs : List Char} (h : cs.all isIndent = true) : Scans cs (cs.map .code) := by
  refine Scans.codes fun c hc => ?_
  have hc := List.all_eq_true.mp h c hc
  simp only [isIndent, Bool.or_eq_true, beq_iff_eq] at hc
  rcases hc with rfl | rfl <;> decide

/-- A comment goes on through what looks like indentation. -/
theorem inside_indent {cs : List Char} (h : cs.all isIndent = true) : Inside cs := by
  refine Inside.of_forall fun c hc => ?_
  have hc := List.all_eq_true.mp h c hc
  simp only [isIndent, Bool.or_eq_true, beq_iff_eq] at hc
  rcases hc with rfl | rfl <;> decide

/-- The lines inside a comment block do not end it. -/
theorem inside_commentLine (hunit : unit.toList.all isIndent = true) {parts : List String}
    (hparts : ∀ part ∈ parts, ¬ ['*', '/'] <:+: part.toList) :
    Inside (lineChars unit ((parts.map commentLine).map (⟨depth, ·⟩))) := by
  induction parts with
  | nil => exact .nil
  | cons part parts ih =>
    rw [List.forall_mem_cons] at hparts
    rw [List.map_cons, List.map_cons, lineChars_cons, List.append_assoc _ _ ['\n']]
    refine ((inside_indent (all_isIndent_copies hunit depth)).append ?_).append (ih hparts.2)
    have hend (cs : List Char) (h : ¬ ['*', '/'] <:+: cs) : Inside (cs ++ ['\n']) :=
      .concat h (by decide) (by decide)
    unfold commentLine
    dsimp only
    split
    · have hline : " *".toList = [' ', '*'] := by decide
      rw [hline]
      exact hend [' ', '*'] (by decide)
    · have hline : " * ".toList = [' ', '*'] ++ [' '] := by decide
      have hstar : Inside ([' ', '*'] ++ [' ']) := .concat (by decide) (by decide) (by decide)
      simp only [String.toList_append, String.toList_ofList, List.append_assoc _ _ ['\n'], hline]
      refine hstar.append (hend _ fun h => ?_)
      exact hparts.1 (h.trans (isPrefix_trimEnd _).isInfix)

/-- The lines of a comment are blanks and the comment. -/
theorem exists_comment (hunit : unit.toList.all isIndent = true) (doc : String) (depth : Nat) :
    ∃ s, Inside s ∧ lineChars unit ((commentLines doc).map (⟨depth, ·⟩)) =
      (copies depth unit).toList ++ (Piece.comment s).chars ++ ['\n'] := by
  have hguard := notInfix_guardCommentEnd doc.toList
  have hopen (c : Char) (hstar : c ≠ '*') (hslash : c ≠ '/') : Inside (['*'] ++ [c]) :=
    .concat (by decide) hstar hslash
  unfold commentLines
  dsimp only
  split
  · refine ⟨['*', ' '] ++ (trim (guardCommentEnd doc.toList) ++ [' ']), ?_, ?_⟩
    · refine (hopen ' ' (by decide) (by decide)).append (.concat ?_ (by decide) (by decide))
      exact fun h => hguard (h.trans (isInfix_trim _))
    · simp [lineChars, Line.toText, Piece.chars]
  · have hparts : ∀ part ∈ lines (String.ofList (guardCommentEnd doc.toList)),
        ¬ ['*', '/'] <:+: part.toList := by
      intro part hpart h
      have hinfix := infix_of_mem_lines hpart
      rw [String.toList_ofList] at hinfix
      exact hguard (h.trans hinfix)
    refine ⟨['*', '\n'] ++ lineChars unit
      (((lines (String.ofList (guardCommentEnd doc.toList))).map commentLine).map (⟨depth, ·⟩)) ++
        ((copies depth unit).toList ++ [' ']),
      ((hopen '\n' (by decide) (by decide)).append (inside_commentLine hunit hparts)).append
        ((inside_indent (all_isIndent_copies hunit depth)).append (.of_forall (by simp))), ?_⟩
    rw [List.map_cons, List.map_append, lineChars_cons, lineChars_append]
    simp [lineChars, Line.toText, Piece.chars]

end Text

end Declgen.Layout
