import Declgen.Proofs.Layout.Documented

/-!
# Passages within a text

What a passage adds to a text depends only on how deep the passage stands, so passages that are put
together add what each of them adds. The first line of a passage continues the text before it, and
every further line starts with a line break and the blanks that indent it.
-/

namespace Declgen.Layout

open Text

variable {unit : String}

/-- Lines below a text that stands `depth` levels deep. -/
def belowChars (unit : String) (depth : Nat) (ls : List Line) : List Char :=
  ls.flatMap fun l => '\n' :: ((copies (depth + l.depth) unit).toList ++ l.body.toList)

/-- Lines the first of which continues a text that stands `depth` levels deep. -/
def continuedChars (unit : String) (depth : Nat) : List Line → List Char
  | [] => []
  | l :: ls => l.body.toList ++ belowChars unit depth ls

/-- The text of lines is that of their parts, one after the other. -/
theorem belowChars_append (depth : Nat) (ls ms : List Line) :
    belowChars unit depth (ls ++ ms) = belowChars unit depth ls ++ belowChars unit depth ms :=
  List.flatMap_append

/-- Lines that are one level deeper are the same below a deeper text. -/
theorem belowChars_deeper (depth : Nat) (ls : List Line) :
    belowChars unit depth (ls.map Line.deeper) = belowChars unit (depth + 1) ls := by
  rw [belowChars, List.flatMap_map]
  refine List.flatMap_congr fun l _ => ?_
  rw [Line.deeper, Nat.add_right_comm depth 1 l.depth]
  rfl

/-- Lines that are joined say what they say one after the other. -/
theorem continuedChars_joinLines (depth : Nat) (ls ms : List Line) :
    continuedChars unit depth (joinLines ls ms) =
      continuedChars unit depth ls ++ continuedChars unit depth ms := by
  have hbelow (l : Line) (ls : List Line) : belowChars unit depth (joinLines (l :: ls) ms) =
      belowChars unit depth (l :: ls) ++ continuedChars unit depth ms := by
    induction ls generalizing l with
    | nil =>
      cases ms with
      | nil => exact (List.append_nil _).symm
      | cons m ms => simp [joinLines, belowChars, continuedChars]
    | cons k ls ih =>
      rw [joinLines_cons (List.cons_ne_nil _ _), belowChars, List.flatMap_cons, ← belowChars, ih]
      exact (List.append_assoc _ _ _).symm
  match ls with
  | [] => rfl
  | [l] =>
    cases ms with
    | nil => exact (List.append_nil _).symm
    | cons m ms => simp [joinLines, belowChars, continuedChars]
  | l :: k :: ls =>
    rw [joinLines_cons (List.cons_ne_nil _ _), continuedChars, hbelow, continuedChars,
      List.append_assoc]

/-- Lines below a text are a line break, blanks and what the lines say. -/
theorem exists_belowChars (hunit : unit.toList.all isIndent = true) (depth : Nat) {ls : List Line}
    (hls : ls ≠ []) : ∃ blanks : List Char, blanks.all isIndent = true ∧
      belowChars unit depth ls = '\n' :: (blanks ++ continuedChars unit depth ls) := by
  obtain ⟨l, ls, rfl⟩ := List.exists_cons_of_ne_nil hls
  refine ⟨_, all_isIndent_copies hunit (depth + l.depth), ?_⟩
  simp [belowChars, continuedChars]

namespace Passage

/-- What a passage adds to a text that stands `depth` levels deep. -/
def chars (unit : String) (depth : Nat) (p : Passage) : List Char :=
  continuedChars unit depth p.lines

/-- Passages that are put together add their texts. -/
theorem chars_append (depth : Nat) (p q : Passage) :
    (p ++ q).chars unit depth = p.chars unit depth ++ q.chars unit depth :=
  continuedChars_joinLines depth p.lines q.lines

/-- A text without line breaks is added as it is. -/
theorem chars_ofString {s : String} (h : '\n' ∉ s.toList) (depth : Nat) :
    (ofString s).chars unit depth = s.toList := by
  rw [chars, ofString, splitAt_of_notMem h]
  exact List.append_nil _

/-- Passages with a separator between them. -/
theorem chars_join {separator : String} (h : '\n' ∉ separator.toList) (depth : Nat)
    (ps : List Passage) : (join separator ps).chars unit depth =
      separator.toList.intercalate (ps.map (chars unit depth)) := by
  induction ps with
  | nil => rfl
  | cons p ps ih =>
    cases ps with
    | nil => exact (List.append_nil _).symm
    | cons q ps =>
      rw [join, chars_append, chars_append, chars_ofString h, ih, List.map_cons,
        List.map_cons, List.map_cons, List.intercalate_cons_cons]

/-- Lines between braces stand one level deeper. -/
theorem chars_braced (depth : Nat) (ls : List Line) : (braced ls).chars unit depth =
    '\x7b' :: (belowChars unit (depth + 1) ls ++
      '\n' :: ((copies depth unit).toList ++ ['\x7d'])) := by
  have hclose : belowChars unit depth [⟨0, "\x7d"⟩] =
      '\n' :: ((copies depth unit).toList ++ ['\x7d']) := by simp [belowChars]
  rw [chars, braced, continuedChars, belowChars_append, belowChars_deeper, hclose]
  rfl

/-- The text of lines that start with `l`: the blanks in front of `l` and what the lines say. -/
theorem toList_toText_cons (unit : String) (l : Line) (ls : List Line) :
    ((Passage.mk (l :: ls)).toText unit).toList =
      (copies l.depth unit).toList ++ (Passage.mk (l :: ls)).chars unit 0 := by
  rw [toText, chars, String.toList_intercalate, List.map_map, continuedChars]
  induction ls generalizing l with
  | nil => simp [Line.toText, belowChars]
  | cons k ls ih =>
    rw [List.map_cons, List.map_cons, List.intercalate_cons_cons, ← List.map_cons, ih]
    simp [Line.toText, belowChars]

/-- The text of a passage, which may start with blanks. -/
theorem exists_toText (hunit : unit.toList.all isIndent = true) (p : Passage) :
    ∃ blanks : List Char, blanks.all isIndent = true ∧
      (p.toText unit).toList = blanks ++ p.chars unit 0 := by
  obtain ⟨_ | ⟨l, ls⟩⟩ := p
  · exact ⟨[], rfl, rfl⟩
  · exact ⟨_, all_isIndent_copies hunit l.depth, toList_toText_cons unit l ls⟩

end Passage

end Declgen.Layout
