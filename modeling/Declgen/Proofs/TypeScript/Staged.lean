import Declgen.Proofs.Layout.Writer
import Declgen.Proofs.TypeScript.Unions

/-!
# Rendering in stages

Types can be rendered in stages: each object type is finished as a text by a writer of its own, and
where it stands within another type the text is cut into lines again, which are written one level
deeper. So the lines of an inner type are indented once at each stage. The text is the one that is
laid out with all depths known: cutting the text of a type into lines gives the lines of its layout.
-/

namespace Declgen.Layout.Writer

/-- Writes the lines of a text, each at the current level. -/
def push (w : Writer) (s : String) : Writer := (Text.lines s).foldl line w

/-- Writes lines that stand at their depths below the current level. -/
def put (w : Writer) (ls : List Line) : Writer := (ls.map (Line.toText w.unit)).foldl line w

/-- The text of a body between braces, finished by a writer of its own. -/
def between (indent : Indent) (body : Writer → Writer) : String :=
  ((body ((new indent).line "\x7b").indent).dedent.raw "\x7d").text

/-- Lines that follow others are written after them. -/
private theorem put_append (w : Writer) (ls ms : List Line) : w.put (ls ++ ms) = (w.put ls).put ms := by
  have hunit : (w.put ls).unit = w.unit := by rw [put, foldl_line]
  rw [put, List.map_append, List.foldl_append, ← put, put.eq_1 _ ms, hunit]

/-- The lines of a comment have no depth of their own. -/
theorem doc_eq_put (w : Writer) (doc : String) :
    w.doc doc = w.put (TypeScript.docLines (some doc)) := by
  rw [Writer.doc, put, TypeScript.docLines, List.map_map]
  exact congrArg _ ((List.map_congr_left fun line _ => String.empty_append).trans
    (List.map_id _)).symm

/-- Pushing the text of a passage puts its lines. -/
theorem push_toText {w : Writer} (hunit : w.unit.toList.all isIndent = true) {p : Passage}
    (h : p.Flush) : w.push (p.toText w.unit) = w.put p.toLines := by
  rw [push, h.lines_toText hunit, put]

/-- Lines that are put between braces stand one level deeper. -/
theorem between_put (indent : Indent) {body : Writer → Writer} {ls : List Line}
    (h : ∀ w : Writer, w.unit = indent.unit → body w = w.put ls) :
    between indent body = (Passage.braced ls).toText indent.unit := by
  have hdeeper (l : Line) :
      copies 1 indent.unit ++ l.toText indent.unit = l.deeper.toText indent.unit := by
    rw [Line.deeper, Line.toText, Line.toText, ← String.append_assoc, copies, copies, copies,
      ← String.join_append, ← List.replicate_add, Nat.add_comm]
  have hlines : (ls.map (Line.toText indent.unit)).map
      (fun l => copies 1 indent.unit ++ l ++ "\n") =
        ((ls.map Line.deeper).map (Line.toText indent.unit)).map (· ++ "\n") := by
    simp only [List.map_map, Function.comp_def, hdeeper]
  have hopen : (Line.mk 0 "\x7b").toText indent.unit = "\x7b" := String.empty_append
  have hclose : (Line.mk 0 "\x7d").toText indent.unit = "\x7d" := String.empty_append
  rw [between, h _ rfl, put, foldl_line, Passage.toText, Passage.braced, List.map_cons,
    List.map_append, List.map_singleton, hopen, hclose, ← List.cons_append,
    Text.intercalate_concat, List.map_cons, String.join_cons, ← hlines]
  simp [new, line, Writer.indent, raw, dedent, copies, String.append_assoc]

end Declgen.Layout.Writer

namespace Declgen.TypeScript

open Layout Passage

namespace Expr

section

variable (indent : Indent)

mutual

/-- The text of an expression that is rendered in stages. -/
def staged : Expr → String
  | .keyword k => k.word
  | .literal value => value.toText
  | .verbatim text => text
  | .reference _ name => name
  | .genericReference _ name arguments =>
    name ++ "<" ++ ", ".intercalate (stagedList arguments) ++ ">"
  | .parameter name => name
  | .array element =>
    if element.isSimple then staged element ++ "[]" else "Array<" ++ staged element ++ ">"
  | .union members => " | ".intercalate ((stagedLeaves members).eraseDups.map (·.2))
  | .object fields =>
    match fields with
    | [] => "\x7b\x7d"
    | _ :: _ => Writer.between indent (stagedFields fields)
  | .index key value =>
    Writer.between indent (·.push ("[key: " ++ staged key ++ "]: " ++ staged value ++ ";"))
  | .mapped key value optional =>
    Writer.between indent (·.push
      ("[key in " ++ staged key ++ ("]" ++ optionalMark optional ++ ": ") ++ staged value ++ ";"))

/-- The texts of several expressions. -/
def stagedList : List Expr → List String
  | [] => []
  | e :: es => staged e :: stagedList es

/-- The leaves of several expressions, each with its text. -/
def stagedLeaves : List Expr → List (Expr × String)
  | [] => []
  | .union inner :: es => stagedLeaves inner ++ stagedLeaves es
  | e :: es => (e, staged e) :: stagedLeaves es

/-- Writes fields, each with its documentation above it. -/
def stagedFields : List (Field Expr) → Writer → Writer
  | [], w => w
  | ⟨name, type, optional, doc⟩ :: fields, w =>
    stagedFields fields ((doc.elim w w.doc).push
      (propertyKey name ++ optionalMark optional ++ ": " ++ staged type ++ ";"))

end

/-- A list is rendered expression by expression. -/
theorem stagedList_eq_map (es : List Expr) : stagedList indent es = es.map (staged indent) := by
  induction es with
  | nil => rfl
  | cons e es ih => rw [stagedList, ih, List.map_cons]

/-- A union is rendered as its leaves, each once. -/
theorem staged_union (members : List Expr) : (Expr.union members).staged indent =
    " | ".intercalate ((members.flatMap leaves).eraseDups.map (staged indent)) := by
  have hpairs : stagedLeaves indent members =
      (members.flatMap leaves).map fun e => (e, e.staged indent) := by
    refine pairs_eq_map rfl (fun _ _ => rfl) (fun e es he => ?_) members
    rw [stagedLeaves]
    exact he
  rw [staged, hpairs, eraseDups_pairs, List.map_map]
  rfl

/-- Pushing an entry puts the lines of the entry. -/
theorem push_entry {w : Writer} (hunit : w.unit = indent.unit) (before between : String)
    {key type : Passage} (hkey : key.Flush) (htype : type.Flush) :
    w.push (before ++ key.toText indent.unit ++ between ++ type.toText indent.unit ++ ";") =
      w.put (entryLines before key between type) := by
  have hbefore := (flush_ofString before).append hkey
  have hbetween := hbefore.append (flush_ofString between)
  have hentry := (hbetween.append htype).append (flush_ofString ";")
  have htext : (ofString before ++ key ++ ofString between ++ type ++ ofString ";").toText w.unit =
      before ++ key.toText indent.unit ++ between ++ type.toText indent.unit ++ ";" := by
    rw [toText_append _ (hbetween.append htype) (flush_ofString ";"),
      toText_append _ hbetween htype, toText_append _ hbefore (flush_ofString between),
      toText_append _ (flush_ofString before) hkey, toText_ofString, toText_ofString,
      toText_ofString, hunit]
  have hblanks : w.unit.toList.all isIndent = true := hunit ▸ all_isIndent_unit indent
  rw [← htext, Writer.push_toText hblanks hentry, entryLines]

/-- Rendering fields in stages puts their lines. -/
theorem stagedFields_eq_put {fields : List (Field Expr)}
    (h : ∀ f ∈ fields, f.type.staged indent = f.type.toText indent) {w : Writer}
    (hunit : w.unit = indent.unit) :
    stagedFields indent fields w = w.put (layoutFields fields) := by
  have hput (w : Writer) (ls : List Line) : (w.put ls).unit = w.unit := by
    rw [Writer.put, foldl_line]
  induction fields generalizing w with
  | nil => rfl
  | cons f fields ih =>
    obtain ⟨name, type, optional, doc⟩ := f
    rw [List.forall_mem_cons] at h
    have hdoc : doc.elim w w.doc = w.put (docLines doc) := by
      cases doc with
      | none => rfl
      | some doc => rw [Option.elim_some, Writer.doc_eq_put]
    have htext := push_entry indent (w := w.put (docLines doc)) (by rw [hput, hunit])
      (propertyKey name ++ optionalMark optional) ": " (flush_ofString "") type.flush_layout
    rw [toText_ofString, String.append_empty] at htext
    rw [stagedFields, hdoc, h.1, toText, htext, ih h.2 (by rw [hput, hput, hunit]), layoutFields,
      Writer.put_append, Writer.put_append]

/-- Rendering in stages gives the text that is laid out with all depths known. -/
theorem staged_eq_toText (e : Expr) : e.staged indent = e.toText indent := by
  induction e using written_induction with
  | step e ih =>
    cases e with
    | genericReference unit name arguments =>
      have harguments : stagedList indent arguments =
          (arguments.map layout).map (Passage.toText indent.unit) := by
        rw [stagedList_eq_map, List.map_map]
        exact List.map_congr_left ih
      have hflush : ∀ p ∈ arguments.map layout, p.Flush :=
        List.forall_mem_map.mpr fun e _ => e.flush_layout
      rw [staged, harguments, toText, layout, layoutList_eq_map,
        toText_append _ ((flush_ofString _).append (flush_join _ hflush)) (flush_ofString _),
        toText_append _ (flush_ofString _) (flush_join _ hflush), toText_join _ _ hflush,
        toText_ofString, toText_ofString]
    | array element =>
      have helement := element.flush_layout
      rw [staged, ih element (List.mem_singleton_self _), toText, toText, layout]
      split
      · rw [toText_append _ helement (flush_ofString _), toText_ofString]
      · rw [toText_append _ ((flush_ofString _).append helement) (flush_ofString _),
          toText_append _ (flush_ofString _) helement, toText_ofString, toText_ofString]
    | union members =>
      rw [staged_union, toText_eq_leaves, leaves_union]
      exact congrArg _ (List.map_congr_left fun leaf hleaf => ih leaf (List.mem_eraseDups.mp hleaf))
    | object fields =>
      cases fields with
      | nil => exact (toText_ofString _ _).symm
      | cons f fields =>
        exact Writer.between_put indent fun w hunit => stagedFields_eq_put indent
          (fun f hf => ih f.type (List.mem_map_of_mem hf)) hunit
    | index key value =>
      refine Writer.between_put indent fun w hunit => ?_
      rw [ih key (by simp [written, parts]), ih value (by simp [written, parts])]
      exact push_entry indent hunit _ _ key.flush_layout value.flush_layout
    | mapped key value optional =>
      refine Writer.between_put indent fun w hunit => ?_
      rw [ih key (by simp [written, parts]), ih value (by simp [written, parts])]
      exact push_entry indent hunit _ _ key.flush_layout value.flush_layout
    | _ => exact (toText_ofString _ _).symm

end

end Expr

/-- The text of a declaration that is rendered in stages. -/
def Declaration.staged (indent : Indent) : Declaration → String
  | .alias name typeParams type =>
    layOut indent ((Text.lines ("export type " ++ name ++ parameterList typeParams ++ " = " ++
      type.staged indent ++ ";")).map .line)
  | d => d.toText indent

/-- Rendering a declaration in stages gives its text. -/
theorem Declaration.staged_eq_toText (indent : Indent) (d : Declaration) :
    d.staged indent = d.toText indent := by
  match d with
  | .alias name typeParams type =>
    have hopen := flush_ofString ("export type " ++ name ++ parameterList typeParams ++ " = ")
    have hhead := hopen.append type.flush_layout
    have hlines := (hhead.append (flush_ofString ";")).lines_toText (all_isIndent_unit indent)
    rw [toText_append _ hhead (flush_ofString ";"), toText_append _ hopen type.flush_layout,
      toText_ofString, toText_ofString] at hlines
    rw [staged, Expr.staged_eq_toText, Expr.toText, hlines, layOut_lines, toText, toFragments,
      layOut_toFragments, List.map_map]
    rfl
  | .enum name members => rfl

end Declgen.TypeScript
