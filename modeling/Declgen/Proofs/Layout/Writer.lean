import Declgen.Layout.Writer
import Declgen.TypeScript.Render
import Declgen.TypeScript.SourceFile

/-!
# What a writer adds

A fragment adds a text to what has been written and leaves the level as it was, and the text depends
on nothing that stands before it. So the text of a source file is put together from the texts of
its parts.
-/

namespace Declgen.Layout

/-! ### The text of a fragment -/

mutual

/-- The text that a fragment adds at a level, where `unit` stands for one level. -/
def Fragment.written (unit : String) (level : Nat) : Fragment → String
  | .line s => copies level unit ++ s ++ "\n"
  | .blank => "\n"
  | .raw s => s
  | .doc s => String.join ((commentLines s).map fun l => copies level unit ++ l ++ "\n")
  | .block header body close =>
    copies level unit ++ header ++ "\n" ++ Fragment.writtenAll unit (level + 1) body ++
      match close with
      | some s => copies level unit ++ s ++ "\n"
      | none => ""
  | .indented body => Fragment.writtenAll unit (level + 1) body
  | .sequence body => Fragment.writtenAll unit level body

/-- The text that fragments add at a level, one after the other. -/
def Fragment.writtenAll (unit : String) (level : Nat) : List Fragment → String
  | [] => ""
  | f :: fs => Fragment.written unit level f ++ Fragment.writtenAll unit level fs

end

/-- The texts of several fragments are those of each of them. -/
theorem Fragment.writtenAll_eq_join (unit : String) (level : Nat) (fs : List Fragment) :
    Fragment.writtenAll unit level fs = String.join (fs.map (Fragment.written unit level)) := by
  induction fs with
  | nil => rfl
  | cons f fs ih => rw [writtenAll, ih, List.map_cons, String.join_cons]

/-- Lines at one level, each complete. -/
theorem Fragment.writtenAll_lines (unit : String) (level : Nat) (ls : List String) :
    Fragment.writtenAll unit level (ls.map .line) =
      String.join (ls.map fun l => copies level unit ++ l ++ "\n") := by
  rw [writtenAll_eq_join, List.map_map]
  rfl

/-- Lines that are written one after the other. -/
theorem foldl_line (w : Writer) (ls : List String) :
    ls.foldl Writer.line w =
      { w with text := w.text ++
          String.join (ls.map fun l => copies w.level w.unit ++ l ++ "\n") } := by
  induction ls generalizing w with
  | nil => simp
  | cons l ls ih =>
    rw [List.foldl_cons, ih, List.map_cons, String.join_cons]
    simp [Writer.line, String.append_assoc]

namespace Writer

mutual

/-- A fragment adds its text and leaves the level as it was. -/
theorem fragment_eq (w : Writer) : ∀ f : Fragment,
    w.fragment f = { w with text := w.text ++ f.written w.unit w.level }
  | .line s => rfl
  | .blank => rfl
  | .raw s => rfl
  | .doc s => foldl_line w (commentLines s)
  | .block header body close => by
    -- The body is written one level deeper, and going back from there cannot be cut off.
    have hinner := fragments_eq (w.line header).indent body
    cases close with
    | none =>
      rw [fragment, hinner]
      simp [Fragment.written, line, indent, dedent, String.append_assoc]
    | some s =>
      rw [fragment, hinner]
      simp [Fragment.written, line, indent, dedent, String.append_assoc]
  | .indented body => by
    rw [fragment, fragments_eq]
    rfl
  | .sequence body => by
    rw [fragment, fragments_eq]
    rfl

/-- So do several fragments. -/
theorem fragments_eq (w : Writer) : ∀ fs : List Fragment,
    w.fragments fs = { w with text := w.text ++ Fragment.writtenAll w.unit w.level fs }
  | [] => by simp [fragments, Fragment.writtenAll]
  | f :: fs => by
    rw [fragments, fragment_eq w f, fragments_eq _ fs, Fragment.writtenAll, String.append_assoc]

end

/-- Fragments are written one after the other. -/
theorem fragments_eq_foldl (w : Writer) (fs : List Fragment) :
    w.fragments fs = fs.foldl fragment w := by
  induction fs generalizing w with
  | nil => rfl
  | cons f fs ih => exact ih (w.fragment f)

/-- A block is its lines around its body one level deeper. -/
theorem fragment_block (w : Writer) (header : String) (body : List Fragment)
    (close : Option String) :
    w.fragment (.block header body close) =
      w.fragment (.sequence (.line header :: .indented body :: (close.map .line).toList)) := by
  cases close with
  | none => rfl
  | some s => rfl

/-- Writing is compositional. A fragment adds a text at the end and leaves the level as it was, and
the text depends on the fragment, the level and the unit of indentation only. A sequence adds the
texts of its parts one after the other, an indented body what it adds as a sequence one level
deeper, and a block what its header, its indented body and its closing line add as a sequence.
Several fragments are written one by one. -/
theorem fragment_compositional (w : Writer) :
    (∀ f : Fragment, w.fragment f = { w with text := w.text ++ f.written w.unit w.level }) ∧
    (∀ body, (w.fragment (.sequence body)).text =
      w.text ++ String.join (body.map fun f => f.written w.unit w.level)) ∧
    (∀ body, (w.fragment (.indented body)).text =
      w.text ++ (Fragment.sequence body).written w.unit (w.level + 1)) ∧
    (∀ header body close, w.fragment (.block header body close) =
      w.fragment (.sequence (.line header :: .indented body :: (close.map .line).toList))) ∧
    ∀ fs, w.fragments fs = fs.foldl fragment w := by
  refine ⟨fragment_eq w, fun body => ?_, fun body => ?_, fragment_block w, fragments_eq_foldl w⟩
  · rw [fragment_eq, Fragment.written, Fragment.writtenAll_eq_join]
  · rw [fragment_eq]
    rfl

end Writer

/-! ### Laying out -/

variable (indent : Indent)

/-- What is laid out is what the fragments add at the outermost level. -/
private theorem layOut_eq (fs : List Fragment) :
    layOut indent fs = Fragment.writtenAll indent.unit 0 fs := by
  rw [layOut, Writer.fragments_eq, Writer.new, String.empty_append]

/-- Without fragments there is no text. -/
theorem layOut_nil : layOut indent [] = "" := rfl

/-- Fragments are laid out one after the other. -/
theorem layOut_cons (f : Fragment) (fs : List Fragment) :
    layOut indent (f :: fs) = layOut indent [f] ++ layOut indent fs := by
  simp [layOut_eq, Fragment.writtenAll]

/-- Fragments that follow others follow them in the text. -/
theorem layOut_append (fs gs : List Fragment) :
    layOut indent (fs ++ gs) = layOut indent fs ++ layOut indent gs := by
  induction fs with
  | nil => rw [List.nil_append, layOut_nil, String.empty_append]
  | cons f fs ih =>
    rw [List.cons_append, layOut_cons, ih, layOut_cons indent f fs, String.append_assoc]

/-- A line is itself with a line break. -/
theorem layOut_line (s : String) : layOut indent [.line s] = s ++ "\n" := by
  simp [layOut_eq, Fragment.writtenAll, Fragment.written, copies]

/-- A blank line is a line break. -/
theorem layOut_blank : layOut indent [.blank] = "\n" := by
  simp [layOut_eq, Fragment.writtenAll, Fragment.written]

/-- Lines at the outermost level, each complete. -/
theorem layOut_lines (ls : List String) :
    layOut indent (ls.map .line) = String.join (ls.map (· ++ "\n")) := by
  simp [layOut_eq, Fragment.writtenAll_lines, copies]

/-- A block of lines one level below its first and its last line. -/
theorem layOut_block (header close : String) (ls : List String) :
    layOut indent [.block header (ls.map .line) (some close)] =
      header ++ "\n" ++ String.join (ls.map fun l => copies 1 indent.unit ++ l ++ "\n") ++
        close ++ "\n" := by
  rw [layOut_eq, Fragment.writtenAll, Fragment.written, Fragment.writtenAll_lines]
  simp [Fragment.writtenAll, copies, String.append_assoc]

end Declgen.Layout

namespace Declgen.TypeScript

open Layout

/-- A blank line between the items of a body is a line break between their texts. -/
theorem layOut_separated (indent : Indent) (items : List (List Fragment)) :
    layOut indent (SourceFile.separated items) =
      "\n".intercalate (items.map (layOut indent)) := by
  induction items with
  | nil => rfl
  | cons item items ih =>
    cases items with
    | nil => rw [SourceFile.separated, List.map_singleton, String.intercalate_singleton]
    | cons next items =>
      rw [SourceFile.separated, layOut_append, layOut_cons, ih, layOut_blank, List.map_cons,
        List.map_cons, List.map_cons, String.intercalate_cons_cons, String.append_assoc]

/-- The line that imports types: the names stand between braces, with commas between them, and the
module in quotes at the end. -/
theorem Import.toText_of_typeOnly {i : Import} (htypeOnly : i.typeOnly = true)
    (hnames : i.names ≠ []) :
    i.toText = "import type \x7b " ++ ", ".intercalate i.names ++ " \x7d from \"" ++ i.source ++
      "\";" := by
  rw [toText, if_neg (by simpa using hnames), if_pos htypeOnly]
  rfl

/-- The text of a source file: the header, the imports, one blank line if something stands on both
sides of it, and the texts of the items with a blank line between them. -/
theorem SourceFile.toText_eq (indent : Indent) (f : SourceFile) :
    f.toText indent =
      String.join (f.header.map (· ++ "\n")) ++
        String.join (f.imports.map (·.toText ++ "\n")) ++
        (if f.imports.isEmpty || f.body.isEmpty then "" else "\n") ++
        "\n".intercalate (f.body.map (layOut indent)) := by
  have himports : f.imports.map (fun i => Fragment.line i.toText) =
      (f.imports.map Import.toText).map .line := by rw [List.map_map]; rfl
  have hblank : layOut indent (if f.imports.isEmpty || f.body.isEmpty then [] else [.blank]) =
      if f.imports.isEmpty || f.body.isEmpty then "" else "\n" := by
    split
    · exact layOut_nil indent
    · exact layOut_blank indent
  rw [toText, toFragments, layOut_append, layOut_append, layOut_append, layOut_lines, himports,
    layOut_lines, List.map_map, hblank, layOut_separated]
  rfl

/-! ### Declarations end with a line break -/

/-- A line that is moved to its depth adds its text and a line break. -/
theorem written_toFragment (unit : String) (l : Line) :
    l.toFragment.written unit 0 = l.toText unit ++ "\n" := by
  obtain ⟨depth, body⟩ := l
  have hlevel (level : Nat) : (Line.mk depth body).toFragment.written unit level =
      copies (level + depth) unit ++ body ++ "\n" := by
    induction depth generalizing level with
    | zero => rfl
    | succ depth ih =>
      have hsucc : (Line.mk (depth + 1) body).toFragment =
          .indented [(Line.mk depth body).toFragment] := rfl
      rw [hsucc, Fragment.written, Fragment.writtenAll, Fragment.writtenAll, String.append_empty,
        ih, Nat.add_right_comm, Nat.add_assoc]
  simpa [Line.toText] using hlevel 0

/-- Lines that are given as fragments are laid out as they are. -/
theorem layOut_toFragments (indent : Indent) (ls : List Line) :
    layOut indent (ls.map Line.toFragment) =
      String.join (ls.map fun l => l.toText indent.unit ++ "\n") := by
  rw [layOut_eq, Fragment.writtenAll_eq_join, List.map_map]
  exact congrArg String.join (List.map_congr_left fun l _ => written_toFragment indent.unit l)

/-- Lines that are each followed by a line break end with one. -/
theorem exists_join (l : String) (ls : List String) :
    ∃ s, String.join ((l :: ls).map (· ++ "\n")) = s ++ "\n" := by
  induction ls generalizing l with
  | nil => exact ⟨l, by simp⟩
  | cons next ls ih =>
    obtain ⟨s, hs⟩ := ih next
    exact ⟨l ++ "\n" ++ s, by
      rw [List.map_cons, String.join_cons, hs]
      simp only [String.append_assoc]⟩

/-- Lines that a semicolon is put behind are not empty. -/
theorem toLines_semicolon_ne_nil (p : Passage) : (p ++ Passage.ofString ";").toLines ≠ [] := by
  obtain ⟨ls⟩ := p
  have hsemicolon : (Passage.ofString ";").lines = [⟨0, ";"⟩] := rfl
  change Passage.complete (joinLines ls (Passage.ofString ";").lines) ≠ []
  rw [hsemicolon]
  match ls with
  | [] => simp [joinLines, Passage.complete]
  | [l] => simp [joinLines, Passage.complete]
  | l :: l' :: ls =>
    have hne : joinLines (l' :: ls) [⟨0, ";"⟩] ≠ [] := by cases ls <;> simp [joinLines]
    obtain ⟨next, rest, hrest⟩ := List.exists_cons_of_ne_nil hne
    simp [joinLines, hrest, Passage.complete]

/-- The text of a declaration ends with a line break, so that an empty text between two such breaks
is a blank line. -/
theorem Declaration.exists_toText (indent : Indent) (d : Declaration) :
    ∃ s, d.toText indent = s ++ "\n" := by
  rcases d with ⟨name, typeParams, type⟩ | ⟨name, members⟩
  · obtain ⟨l, ls, hls⟩ := List.exists_cons_of_ne_nil (toLines_semicolon_ne_nil
      (Passage.ofString ("export type " ++ name ++ parameterList typeParams ++ " = ") ++
        type.layout))
    obtain ⟨s, hs⟩ := exists_join (l.toText indent.unit) (ls.map (·.toText indent.unit))
    refine ⟨s, ?_⟩
    rw [toText, toFragments, hls, layOut_toFragments, ← hs, List.map_cons, List.map_cons,
      List.map_map]
    rfl
  · cases members with
    | nil => exact ⟨_, layOut_line indent _⟩
    | cons member members =>
      simp only [toText, toFragments, layOut, Writer.fragments, Writer.fragment, Writer.line]
      exact ⟨_, (String.append_assoc).symm⟩

end Declgen.TypeScript
