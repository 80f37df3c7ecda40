import Declgen.Proofs.Layout.Blocks
import Declgen.Proofs.TypeScript.Staged
import Mathlib.Logic.Function.Iterate

/-!
# Indentation is layout only

The text of a declaration consists of lines whose depths and bodies do not depend on how wide the
indentation is. Every type that is written between braces keeps its shape wherever it stands: its
lines stand deeper by the number of braces around it, and so do the comments of its fields.
-/

namespace Declgen

open Layout Text

/-- A line of a finished text that is cut out and moved one level deeper `n` times. Each cut may
take a carriage return from its end. -/
def Layout.Line.sunk (n : Nat) (l : Line) : Line := ⟨l.depth + n, Text.chomp^[n] l.body⟩

/-- To cut out a line once more is to cut it out, chomp it and move it. -/
theorem Layout.Line.sunk_succ (n : Nat) (l : Line) : l.sunk (n + 1) = (l.sunk n).chomp.deeper := by
  rw [sunk, Function.iterate_succ_apply']
  rfl

namespace TypeScript

namespace Expr

/-! ### Types between braces -/

/-- Whether an expression is written on several lines, between braces. -/
def spansLines : Expr → Bool
  | .object fields => !fields.isEmpty
  | .index .. | .mapped .. => true
  | _ => false

/-- An expression is written within another one, `depth` pairs of braces deep. -/
inductive Within (e : Expr) : Nat → Expr → Prop
  /-- It is the other one. -/
  | self : Within e 0 e
  /-- It is written within something that the other one is written with. -/
  | part {depth : Nat} {part whole : Expr} (hpart : part ∈ whole.written)
    (h : Within e depth part) : Within e (depth + whole.spansLines.toNat) whole

/-- What is written on several lines is written between braces. -/
theorem exists_layout {e : Expr} (h : e.spansLines = true) :
    ∃ ls, e.layout = Passage.braced ls := by
  cases e with
  | object fields =>
    have hne : fields ≠ [] := by simpa [spansLines] using h
    exact ⟨layoutFields fields, layout_object hne⟩
  | index key value => exact ⟨_, rfl⟩
  | mapped key value optional => exact ⟨_, rfl⟩
  | _ => cases h

/-- Every node that spans lines is written somewhere. -/
theorem exists_within {e whole : Expr} (h : e ∈ whole.nodes) (hspans : e.spansLines = true) :
    ∃ depth, Within e depth whole := by
  induction whole using parts_induction with
  | step whole ih =>
    rw [nodes_eq, List.mem_cons, List.mem_flatMap] at h
    rcases h with rfl | ⟨part, hpart, h⟩
    · exact ⟨0, .self⟩
    · obtain ⟨depth, hwithin⟩ := ih part hpart h
      cases whole with
      | union members =>
        -- A union within a union is not written itself, but its leaves are.
        suffices hleaf : ∃ leaf ∈ part.leaves, ∃ depth, Within e depth leaf by
          obtain ⟨leaf, hleaf, depth, hwithin⟩ := hleaf
          exact ⟨_, .part (List.mem_flatMap.mpr ⟨part, hpart, hleaf⟩) hwithin⟩
        cases part with
        | union inner =>
          cases hwithin with
          | self => cases hspans
          | part hleaf hwithin => exact ⟨_, by rwa [leaves_union], _, hwithin⟩
        | _ => exact ⟨_, List.mem_singleton_self _, depth, hwithin⟩
      | _ => exact ⟨_, .part hpart hwithin⟩

/-- The blocks of the type of an entry, and of its key. -/
theorem hasBlock_entryLines {depth : Nat} {inner : List Line} {before between : String}
    {key type : Passage} (hkey : key.Flush) (htype : type.Flush)
    (h : HasBlock depth inner key.lines ∨ HasBlock depth inner type.lines) :
    HasBlock depth (inner.map Line.chomp) (entryLines before key between type) := by
  have hbefore := Passage.flush_ofString before
  have hbetween := Passage.flush_ofString between
  have hsemicolon := Passage.flush_ofString ";"
  apply HasBlock.complete
  refine Passage.hasBlock_append_left ?_ hsemicolon
  rcases h with h | h
  · exact Passage.hasBlock_append_left (Passage.hasBlock_append_left
      (Passage.hasBlock_append_right hbefore hkey h) hbetween) htype
  · exact Passage.hasBlock_append_right ((hbefore.append hkey).append hbetween) htype h

/-- The lines of an expression between braces stand deeper by the number of braces around it. -/
theorem Within.hasBlock {e whole : Expr} {depth : Nat} {ls : List Line} (h : Within e depth whole)
    (he : e.layout = Passage.braced ls) :
    HasBlock depth ((ls.map Line.deeper).map (Line.sunk depth)) whole.layout.lines := by
  induction h with
  | self =>
    have hsame : (ls.map Line.deeper).map (Line.sunk 0) = ls.map Line.deeper :=
      (List.map_congr_left fun _ _ => rfl).trans (List.map_id _)
    rw [he, hsame]
    exact .braced ls
  | @part depth part whole hpart _ ih =>
    -- Lines that are put between braces are cut out of the text of the part and moved deeper.
    have hsunk : (ls.map Line.deeper).map (Line.sunk (depth + 1)) =
        (((ls.map Line.deeper).map (Line.sunk depth)).map Line.chomp).map Line.deeper := by
      simp only [List.map_map]
      exact List.map_congr_left fun l _ => l.deeper.sunk_succ depth
    cases whole with
    | genericReference unit name arguments =>
      have harguments : ∀ p ∈ arguments.map layout, p.Flush :=
        List.forall_mem_map.mpr fun e _ => e.flush_layout
      rw [layout, layoutList_eq_map]
      exact Passage.hasBlock_append_left (Passage.hasBlock_append_right (Passage.flush_ofString _)
        (Passage.flush_join _ harguments)
        (Passage.hasBlock_join harguments (List.mem_map_of_mem hpart) ih))
        (Passage.flush_ofString _)
    | array element =>
      rw [List.mem_singleton.mp hpart] at ih
      rw [layout]
      split
      · exact Passage.hasBlock_append_left ih (Passage.flush_ofString _)
      · exact Passage.hasBlock_append_left (Passage.hasBlock_append_right (Passage.flush_ofString _)
          element.flush_layout ih) (Passage.flush_ofString _)
    | union members =>
      rw [layout_union]
      exact Passage.hasBlock_join (List.forall_mem_map.mpr fun e _ => e.flush_layout)
        (List.mem_map_of_mem (List.mem_eraseDups.mpr hpart)) ih
    | object fields =>
      obtain ⟨f, hf, rfl⟩ := List.mem_map.mp hpart
      have hne : fields ≠ [] := List.ne_nil_of_mem hf
      have hspans : (Expr.object fields).spansLines = true := by simpa [spansLines] using hne
      rw [hspans, layout_object hne, Bool.toNat_true, hsunk]
      apply HasBlock.in_braces
      obtain ⟨before, after, rfl⟩ := List.append_of_mem hf
      rw [layoutFields_eq_flatMap, List.flatMap_append, List.flatMap_cons, List.append_assoc,
        ← List.append_assoc, ← List.append_assoc]
      exact (hasBlock_entryLines (Passage.flush_ofString "") f.type.flush_layout (.inr ih)).within
        _ _
    | index key value =>
      refine hsunk ▸ HasBlock.in_braces (hasBlock_entryLines key.flush_layout value.flush_layout ?_)
      rcases List.mem_pair.mp hpart with rfl | rfl
      · exact .inl ih
      · exact .inr ih
    | mapped key value optional =>
      refine hsunk ▸ HasBlock.in_braces (hasBlock_entryLines key.flush_layout value.flush_layout ?_)
      rcases List.mem_pair.mp hpart with rfl | rfl
      · exact .inl ih
      · exact .inr ih
    | _ => cases hpart

end Expr

/-! ### Declarations -/

/-- Lines one below the other, each with a line feed. -/
theorem toList_join (unit : String) (ls : List Line) :
    (String.join ((ls.map (Line.toText unit)).map (· ++ "\n"))).toList = lineChars unit ls := by
  rw [String.toList_join, List.flatMap_map, List.flatMap_map, lineChars]
  refine List.flatMap_congr fun l _ => ?_
  rw [String.toList_append]
  rfl

/-- The lines of a text that stands at the outermost depth. -/
theorem lineChars_ofString (unit s : String) :
    lineChars unit (Passage.ofString s).lines = s.toList ++ ['\n'] := by
  have hjoin : String.join ((splitAt '\n' s).map (· ++ "\n")) = s ++ "\n" := by
    have hs : "\n".intercalate (splitAt '\n' s) = s := intercalate_splitAt s
    have hconcat := intercalate_concat "\n" (splitAt '\n' s) ""
    rw [String.intercalate_append_of_ne_nil (splitAt_ne_nil s) (List.cons_ne_nil _ _), hs,
      String.intercalate_singleton, String.append_empty, String.append_empty] at hconcat
    exact hconcat.symm
  rw [← toList_join, Passage.map_toText_ofString, hjoin, String.toList_append]
  rfl

namespace Declaration

/-- The lines of the text of a declaration. The name of an enumeration may have line feeds in it,
which start further lines. -/
def textLines : Declaration → List Line
  | .alias name typeParams type => (Declaration.alias name typeParams type).lines
  | .enum name [] => (Passage.ofString ("export enum " ++ name ++ " \x7b\x7d")).lines
  | .enum name members =>
    (Passage.ofString ("export enum " ++ name ++ " \x7b")).lines ++
      (members.map (fun m => ⟨1, memberText m⟩) ++ [⟨0, "\x7d"⟩])

/-- The text of a declaration is made of its lines, each with a line break. -/
theorem toText_eq_join (indent : Indent) (d : Declaration) : d.toText indent =
    String.join ((d.textLines.map (Line.toText indent.unit)).map (· ++ "\n")) := by
  rw [← String.toList_inj, toList_toText, toList_join]
  have hheader (header : String) (ls : List Line) : lineChars indent.unit (⟨0, header⟩ :: ls) =
      lineChars indent.unit ((Passage.ofString header).lines ++ ls) := by
    rw [lineChars_append, lineChars_ofString, lineChars_cons]
    rfl
  match d with
  | .alias name typeParams type => rfl
  | .enum name [] =>
    have hheader := hheader ("export enum " ++ name ++ " \x7b\x7d") []
    rwa [List.append_nil] at hheader
  | .enum name (member :: members) => exact hheader _ _

/-- The lines of a declaration are single lines. -/
theorem single_textLines (d : Declaration) : ∀ l ∈ d.textLines, '\n' ∉ l.body.toList := by
  match d with
  | .alias name typeParams type =>
    exact (((Passage.flush_ofString _).append type.flush_layout).append
      (Passage.flush_ofString ";")).single_toLines
  | .enum name [] => exact (Passage.flush_ofString _).single
  | .enum name (member :: members) =>
    rw [textLines, List.forall_mem_append, List.forall_mem_append]
    · refine ⟨(Passage.flush_ofString _).single, List.forall_mem_map.mpr fun m _ => ?_, by simp⟩
      exact (code_memberText m).notMem.1
    · simp

/-- An expression is written in the type of an alias, `depth` pairs of braces deep. -/
def Holds (depth : Nat) (e : Expr) : Declaration → Prop
  | .alias _ _ type => e.Within depth type
  | .enum _ _ => False

/-- How a declaration is laid out, whatever the indentation. -/
structure LaidOut (d : Declaration) (ls : List Line) : Prop where
  /-- No line has a line feed within it. -/
  single : ∀ l ∈ ls, '\n' ∉ l.body.toList
  /-- The text consists of the lines, each indented by its depth and followed by a line feed. -/
  text : ∀ indent : Indent,
    splitAt '\n' (d.toText indent) = ls.map (Line.toText indent.unit) ++ [""]
  /-- The lines of the text are these lines, where a carriage return before the line feed does not
  count. -/
  lines : ∀ indent : Indent,
    Text.lines (d.toText indent) = (ls.map Line.chomp).map (Line.toText indent.unit)
  /-- A type that spans lines is written as a block: the braces stand as deep as there are braces
  around the type, and the lines between them are those of the type on its own, moved deeper by the
  same amount. The comments of its fields are among them. -/
  nested : ∀ (depth : Nat) (e : Expr), d.Holds depth e → e.spansLines = true → ∃ inner : List Line,
    (∀ indent : Indent, splitAt '\n' (e.toText indent) =
      "\x7b" :: (inner.map (Line.toText indent.unit) ++ ["\x7d"])) ∧
    HasBlock depth (inner.map fun l => (l.sunk depth).chomp) ls ∧
    ∀ fields f doc, e = .object fields → f ∈ fields → f.doc = some doc →
      (commentLines doc).map (⟨depth + 1, ·⟩) <:+: inner.map fun l => (l.sunk depth).chomp

/-- The lines of a comment are among the lines between the braces of the object type, and carriage
returns are not taken from them. -/
theorem comment_infix {fields : List (Field Expr)} {f : Field Expr} {doc : String} (hf : f ∈ fields)
    (hdoc : f.doc = some doc) (depth : Nat) :
    (commentLines doc).map (⟨depth + 1, ·⟩) <:+:
      ((Expr.layoutFields fields).map Line.deeper).map fun l => (l.sunk depth).chomp := by
  have hinside : docLines (some doc) <:+: Expr.layoutFields fields := by
    obtain ⟨before, after, rfl⟩ := List.append_of_mem hf
    rw [Expr.layoutFields_eq_flatMap, List.flatMap_append, List.flatMap_cons, hdoc,
      List.append_assoc]
    exact ⟨_, _, List.append_assoc _ _ _⟩
  have hline : ∀ line ∈ commentLines doc,
      (((Line.mk 0 line).deeper.sunk depth).chomp : Line) = ⟨depth + 1, line⟩ := by
    intro line hline
    have hchomp : Text.chomp line = line := chomp_of_mem_commentLines hline
    have hiterate : Text.chomp^[depth] line = line := Function.iterate_fixed hchomp depth
    rw [Line.deeper, Line.sunk, hiterate, Line.chomp, hchomp, Nat.zero_add, Nat.add_comm]
  have hlines : ((docLines (some doc)).map Line.deeper).map (fun l => (l.sunk depth).chomp) =
      (commentLines doc).map (⟨depth + 1, ·⟩) := by
    rw [docLines, List.map_map, List.map_map]
    exact List.map_congr_left hline
  rw [← hlines]
  exact (hinside.map Line.deeper).map _

/-- The blocks of a declaration are those of its type. -/
theorem Holds.hasBlock {d : Declaration} {depth : Nat} {e : Expr} {ls : List Line}
    (h : d.Holds depth e) (he : e.layout = Passage.braced ls) :
    HasBlock depth ((ls.map Line.deeper).map fun l => (l.sunk depth).chomp) d.textLines := by
  match d with
  | .alias name typeParams type =>
    have hhead := Passage.flush_ofString
      ("export type " ++ name ++ parameterList typeParams ++ " = ")
    have hblock := (Passage.hasBlock_append_left (Passage.hasBlock_append_right hhead
      type.flush_layout (Expr.Within.hasBlock h he)) (Passage.flush_ofString ";")).complete
    rw [List.map_map] at hblock
    exact hblock
  | .enum name members => cases h

/-- A declaration is laid out by the lines of its text. -/
theorem laidOut (d : Declaration) : d.LaidOut d.textLines := by
  have hsingle (indent : Indent) : ∀ line ∈ d.textLines.map (Line.toText indent.unit),
      '\n' ∉ line.toList := List.forall_mem_map.mpr fun l hl =>
    notMem_toText (all_isIndent_unit indent) (d.single_textLines l hl)
  refine ⟨d.single_textLines, fun indent => ?_, fun indent => ?_, fun depth e hholds hspans => ?_⟩
  · have hconcat := intercalate_concat "\n" (d.textLines.map (Line.toText indent.unit)) ""
    rw [String.append_empty] at hconcat
    rw [toText_eq_join, ← hconcat]
    refine splitAt_intercalate (by simp) ?_
    rw [List.forall_mem_append, List.forall_mem_singleton]
    exact ⟨hsingle indent, by decide⟩
  · rw [toText_eq_join, lines_join (hsingle indent), List.map_map, List.map_map]
    exact List.map_congr_left fun l _ => chomp_toText (all_isIndent_unit indent) l
  · obtain ⟨ls, he⟩ := Expr.exists_layout hspans
    refine ⟨ls.map Line.deeper, fun indent => ?_, hholds.hasBlock he, ?_⟩
    · have hsplit := e.flush_layout.splitAt_toText (all_isIndent_unit indent)
      rw [he, Passage.braced, List.map_cons, List.map_append, List.map_singleton] at hsplit
      rw [Expr.toText, he]
      exact hsplit
    · rintro fields f doc rfl hf hdoc
      simp only [Expr.layout_object (List.ne_nil_of_mem hf), Passage.braced, Passage.mk.injEq,
        List.cons.injEq, true_and] at he
      rw [← List.append_cancel_right he]
      exact comment_infix hf hdoc depth

/-- Indentation is layout only: for every indentation the text has the same lines, each at its
depth, and everything in it that spans lines keeps its shape wherever it stands. The text is also
the one that is rendered in stages. -/
theorem toText_laidOut (d : Declaration) :
    (∃ ls, d.LaidOut ls) ∧
    (∀ indent indent' : Indent,
      (Text.lines (d.toText indent)).length = (Text.lines (d.toText indent')).length) ∧
    (∀ e ∈ d.nodes, e.spansLines = true → ∃ depth, d.Holds depth e) ∧
    ∀ indent : Indent, d.staged indent = d.toText indent := by
  have h := d.laidOut
  refine ⟨⟨d.textLines, h⟩, fun indent indent' => ?_, fun e he hspans => ?_, fun indent => ?_⟩
  · simp only [h.lines, List.length_map]
  · match d with
    | .alias name typeParams type => exact Expr.exists_within he hspans
    | .enum name members => cases he
  · exact d.staged_eq_toText indent

end Declaration

end TypeScript

end Declgen
