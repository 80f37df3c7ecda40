import Declgen.Proofs.Layout.Documented
import Declgen.Proofs.Layout.Writer
import Declgen.Proofs.TypeScript.Leaves
import Declgen.Proofs.TypeScript.Words

/-!
# Documentation does not change code

The text of a declaration is scanned into rows. Field names, enumeration members and text constants
end where they are meant to and can be read back, whatever characters they have. Documentation
stands in comments on rows of their own, and the other rows are the text of the same declaration
without documentation.
-/

namespace Declgen.TypeScript

open Layout Text

namespace Expr

/-! ### Erasing documentation -/

mutual

/-- The expression without the documentation of its fields. -/
def eraseDocs : Expr → Expr
  | .genericReference unit name arguments => .genericReference unit name (eraseDocsList arguments)
  | .array element => .array (eraseDocs element)
  | .union members => .union (eraseDocsList members)
  | .object fields => .object (eraseDocsFields fields)
  | .index key value => .index (eraseDocs key) (eraseDocs value)
  | .mapped key value optional => .mapped (eraseDocs key) (eraseDocs value) optional
  | e => e

/-- The expressions of a list without documentation. -/
def eraseDocsList : List Expr → List Expr
  | [] => []
  | e :: es => eraseDocs e :: eraseDocsList es

/-- Fields without documentation. -/
def eraseDocsFields : List (Field Expr) → List (Field Expr)
  | [] => []
  | ⟨name, type, optional, _⟩ :: fields =>
    ⟨name, eraseDocs type, optional, none⟩ :: eraseDocsFields fields

end

/-- The documentation of a list is that of its expressions. -/
theorem eraseDocsList_eq_map (es : List Expr) : eraseDocsList es = es.map eraseDocs := by
  induction es with
  | nil => rfl
  | cons e es ih => rw [eraseDocsList, ih, List.map_cons]

/-- The documentation of fields is their own and that of their types. -/
theorem eraseDocsFields_eq_map (fields : List (Field Expr)) : eraseDocsFields fields =
    fields.map fun f => ⟨f.name, f.type.eraseDocs, f.optional, none⟩ := by
  induction fields with
  | nil => rfl
  | cons f fields ih => rw [eraseDocsFields, ih, List.map_cons]

/-- Whether an expression is simple does not depend on documentation. -/
private theorem isSimple_eraseDocs (e : Expr) : e.eraseDocs.isSimple = e.isSimple := by
  cases e <;> rfl

/-- The leaves of an expression without documentation. -/
theorem leaves_eraseDocs (e : Expr) : e.eraseDocs.leaves = e.leaves.map eraseDocs := by
  induction e with
  | union members ih =>
    rw [eraseDocs, eraseDocsList_eq_map, leaves_union, leaves_union, List.flatMap_map,
      List.map_flatMap]
    exact List.flatMap_congr ih
  | _ => rfl

/-! ### Quoted texts -/

/-- What is quoted of a field name: the name, unless it is an identifier. -/
def quotedKey (name : String) : List String := if isIdentifier name then [] else [name]

/-- What is quoted of a constant. -/
def quotedLiteral : Literal → List String
  | .number _ => []
  | .text value => [value]

mutual

/-- The texts that are quoted in an expression, in the order in which they are written. -/
def quoted : Expr → List String
  | .literal value => quotedLiteral value
  | .genericReference _ _ arguments => quotedList arguments
  | .array element => quoted element
  | .union members => (quotedLeaves members).eraseDups.flatMap (·.2)
  | .object fields => quotedFields fields
  | .index key value => quoted key ++ quoted value
  | .mapped key value _ => quoted key ++ quoted value
  | _ => []

/-- The texts that are quoted in several expressions. -/
def quotedList : List Expr → List String
  | [] => []
  | e :: es => quoted e ++ quotedList es

/-- The leaves of several expressions, each with the texts that are quoted in it. -/
def quotedLeaves : List Expr → List (Expr × List String)
  | [] => []
  | .union inner :: es => quotedLeaves inner ++ quotedLeaves es
  | e :: es => (e, quoted e) :: quotedLeaves es

/-- The texts that are quoted in fields. -/
def quotedFields : List (Field Expr) → List String
  | [] => []
  | ⟨name, type, _, _⟩ :: fields => quotedKey name ++ quoted type ++ quotedFields fields

end

/-- What is quoted in a list is quoted in its expressions. -/
theorem quotedList_eq_flatMap (es : List Expr) : quotedList es = es.flatMap quoted := by
  induction es with
  | nil => rfl
  | cons e es ih => rw [quotedList, ih, List.flatMap_cons]

/-- What is quoted in fields is quoted in their names and their types. -/
theorem quotedFields_eq_flatMap (fields : List (Field Expr)) : quotedFields fields =
    fields.flatMap fun f => quotedKey f.name ++ f.type.quoted := by
  induction fields with
  | nil => rfl
  | cons f fields ih => rw [quotedFields, ih, List.flatMap_cons]

/-- A union has the texts that are quoted in its leaves, each leaf once. -/
theorem quoted_union (members : List Expr) :
    (Expr.union members).quoted = (members.flatMap leaves).eraseDups.flatMap quoted := by
  have hpairs : quotedLeaves members =
      (members.flatMap leaves).map fun e => (e, e.quoted) := by
    refine pairs_eq_map rfl (fun _ _ => rfl) (fun e es he => ?_) members
    rw [quotedLeaves]
    exact he
  rw [quoted, hpairs, eraseDups_pairs, List.flatMap_map]

/-! ### Laying out with and without documentation -/

/-- What is asked of a node so that nothing in it can open quotes or a comment: it has no text of
its own, names are identifiers, and leaves of a union do not differ in their documentation only. -/
def IsPlain : Expr → Prop
  | .verbatim _ => False
  | .reference _ name | .genericReference _ name _ | .parameter name => isIdentifier name = true
  | .union members => ∀ a ∈ members.flatMap leaves, ∀ b ∈ members.flatMap leaves,
      a.eraseDocs = b.eraseDocs → a = b
  | _ => True

instance : DecidablePred IsPlain
  | .verbatim _ => .isFalse id
  | .reference _ name | .genericReference _ name _ | .parameter name =>
    inferInstanceAs (Decidable (isIdentifier name = true))
  | .union members =>
    inferInstanceAs (Decidable (∀ a ∈ members.flatMap leaves, ∀ b ∈ members.flatMap leaves,
      a.eraseDocs = b.eraseDocs → a = b))
  | .keyword _ | .literal _ | .array _ | .object _ | .index .. | .mapped .. => .isTrue trivial

/-- A field name is written as an identifier or quoted. -/
theorem code_propertyKey (name : String) : Code (quotedKey name) (propertyKey name).toList := by
  unfold quotedKey propertyKey
  split
  · rename_i hname
    exact code_of_all_isWord (all_isWord_of_isIdentifier hname)
  · exact .quote_single name

/-- The mark of an optional field quotes nothing. -/
theorem code_fieldKey (name : String) (optional : Bool) :
    Code (quotedKey name) (propertyKey name ++ optionalMark optional).toList := by
  have hmark : Code [] (optionalMark optional).toList := by
    cases optional <;> exact .of_all (by decide)
  have hall := (code_propertyKey name).append hmark
  rwa [List.append_nil, ← String.toList_append] at hall

/-- The text of a constant quotes what is quoted of it. -/
theorem code_literal (value : Literal) : Code (quotedLiteral value) value.toText.toList := by
  cases value with
  | number n =>
    obtain ⟨-, -, -, -, hword⟩ := exists_of_number n
    exact code_of_all_isWord hword
  | text s => exact .quote_single s

/-- The lines of a documentation are a comment. -/
theorem isComment_docLines (doc : Option String) : IsComment (docLines doc) := by
  cases doc with
  | none => exact .inl rfl
  | some doc => exact .inr ⟨0, doc, rfl⟩

/-- The lines of an entry whose parts are laid out. -/
theorem documented_entryLines {ks ts us : List String} {before between : String}
    {key key' type type' : Passage} (hbefore : Code ks before.toList)
    (hkey : key.Documented ts key') (hbetween : Code [] between.toList)
    (htype : type.Documented us type') :
    Layout.Documented (ks ++ (ts ++ us)) (entryLines before key between type)
      (entryLines before key' between type') := by
  have := (((Passage.Documented.ofString hbefore).append hkey).append
    (Passage.Documented.ofString hbetween)).append htype
  rw [List.append_nil, List.append_assoc] at this
  exact this.toLines_semicolon

/-- An expression is laid out in the same way with and without documentation, and the texts that it
quotes are quoted in the code. -/
def Documented (e : Expr) : Prop := e.layout.Documented e.quoted e.eraseDocs.layout

/-- Documentation stays a comment in the arguments of a reference. -/
theorem documented_genericReference {unit : UnitId} {name : String} {arguments : List Expr}
    (hname : isIdentifier name = true) (harguments : ∀ e ∈ arguments, e.Documented) :
    (Expr.genericReference unit name arguments).Documented := by
  have hopen : Code [] (name ++ "<").toList := by
    rw [String.toList_append]
    exact (code_of_all_isWord (all_isWord_of_isIdentifier hname)).append (.of_all (by decide))
  have hclose : Code [] ">".toList := .of_all (by decide)
  have hjoin : (Passage.join ", " (arguments.map layout)).Documented (arguments.flatMap quoted)
      (Passage.join ", " (arguments.map fun e => e.eraseDocs.layout)) :=
    .join (.of_all (by decide)) harguments
  have hall := ((Passage.Documented.ofString hopen).append hjoin).append (.ofString hclose)
  rw [List.nil_append, List.append_nil] at hall
  rw [Documented, layout, layoutList_eq_map, quoted, quotedList_eq_flatMap, eraseDocs,
    eraseDocsList_eq_map, layout, layoutList_eq_map, List.map_map]
  exact hall

/-- Documentation stays a comment in the elements of an array. -/
theorem documented_array {element : Expr} (helement : element.Documented) :
    (Expr.array element).Documented := by
  rw [Documented, layout, quoted, eraseDocs, layout, isSimple_eraseDocs]
  split
  · have hbrackets : Code [] "[]".toList := .of_all (by decide)
    have hall := Passage.Documented.append helement (.ofString hbrackets)
    rwa [List.append_nil] at hall
  · have hopen : Code [] "Array<".toList := .of_all (by decide)
    have hclose : Code [] ">".toList := .of_all (by decide)
    have hall := ((Passage.Documented.ofString hopen).append helement).append (.ofString hclose)
    rwa [List.nil_append, List.append_nil] at hall

/-- The documentation of fields stays a comment, and so does the one in their types. -/
theorem documented_object {fields : List (Field Expr)} (hfields : ∀ f ∈ fields, f.type.Documented) :
    (Expr.object fields).Documented := by
  by_cases hne : fields = []
  · subst hne
    exact .ofString (.of_all (by decide))
  · rw [Documented, layout_object hne, quoted, quotedFields_eq_flatMap, eraseDocs,
      eraseDocsFields_eq_map, layout_object (by simpa using hne), layoutFields_eq_flatMap,
      layoutFields_eq_flatMap, List.flatMap_map]
    refine .braced fun f hf => ⟨isComment_docLines f.doc, ?_⟩
    have hentry : Layout.Documented (quotedKey f.name ++ ([] ++ f.type.quoted))
        (entryLines (propertyKey f.name ++ optionalMark f.optional) (Passage.ofString "") ": "
          f.type.layout)
        (entryLines (propertyKey f.name ++ optionalMark f.optional) (Passage.ofString "") ": "
          f.type.eraseDocs.layout) := by
      have hcode : Code [] "".toList := .of_all (by decide)
      have hnone : (Passage.ofString "").Documented [] (Passage.ofString "") := .ofString hcode
      have hcolon : Code [] ": ".toList := .of_all (by decide)
      exact documented_entryLines (code_fieldKey f.name f.optional) hnone hcolon (hfields f hf)
    rw [List.nil_append] at hentry
    rw [docLines, List.nil_append]
    exact hentry

/-- One entry whose key and value are types. -/
theorem documented_entry {key value : Expr} (hkey : key.Documented) (hvalue : value.Documented)
    {before between : String} (hbefore : before.toList.all isPlain = true)
    (hbetween : between.toList.all isPlain = true) :
    (Passage.braced (entryLines before key.layout between value.layout)).Documented
      (key.quoted ++ value.quoted)
      (Passage.braced (entryLines before key.eraseDocs.layout between value.eraseDocs.layout)) :=
  .braced_entry (documented_entryLines (.of_all hbefore) hkey (.of_all hbetween) hvalue)

/-- It is enough to look at the leaves of an expression. -/
theorem documented_of_leaves {e : Expr} (he : e.IsPlain) (h : ∀ leaf ∈ e.leaves, leaf.Documented) :
    e.Documented := by
  cases e with
  | union members =>
    rw [leaves_union] at h
    have hleaves : (members.map eraseDocs).flatMap leaves =
        (members.flatMap leaves).map eraseDocs := by
      rw [List.flatMap_map, List.map_flatMap]
      exact List.flatMap_congr fun member _ => leaves_eraseDocs member
    rw [Documented, eraseDocs, eraseDocsList_eq_map, layout_union, layout_union, quoted_union,
      hleaves, eraseDups_map he, List.map_map]
    exact .join (.of_all (by decide)) fun leaf hleaf => h leaf (List.mem_eraseDups.mp hleaf)
  | _ => exact h _ (List.mem_singleton_self _)

/-- Every plain expression is laid out in the same way with and without documentation. -/
theorem documented {e : Expr} (h : ∀ node ∈ e.nodes, node.IsPlain) : e.Documented := by
  have hself {e : Expr} (h : ∀ node ∈ e.nodes, node.IsPlain) : e.IsPlain :=
    h e (by cases e <;> exact List.mem_cons_self)
  -- Members of a union that are unions themselves are not laid out, so the leaves are looked at.
  suffices hleaves : ∀ leaf ∈ e.leaves, leaf.Documented from documented_of_leaves (hself h) hleaves
  have hpart {e : Expr} (h : ∀ node ∈ e.nodes, node.IsPlain)
      (ih : (∀ node ∈ e.nodes, node.IsPlain) → ∀ leaf ∈ e.leaves, leaf.Documented) :
      e.Documented := documented_of_leaves (hself h) (ih h)
  have hplain := hself h
  induction e with
  | verbatim text => exact hplain.elim
  | keyword k =>
    exact List.forall_mem_singleton.mpr (.ofString (code_of_all_isWord (all_isWord_keyword k)))
  | literal value => exact List.forall_mem_singleton.mpr (.ofString (code_literal value))
  | reference unit name =>
    exact List.forall_mem_singleton.mpr
      (.ofString (code_of_all_isWord (all_isWord_of_isIdentifier hplain)))
  | parameter name =>
    exact List.forall_mem_singleton.mpr
      (.ofString (code_of_all_isWord (all_isWord_of_isIdentifier hplain)))
  | genericReference unit name arguments ih =>
    rw [nodes, nodesList_eq_flatMap, List.forall_mem_cons, List.forall_mem_flatMap] at h
    exact List.forall_mem_singleton.mpr (documented_genericReference hplain fun e he =>
      hpart (h.2 e he) fun h => ih e he h (hself h))
  | array element ih =>
    rw [nodes, List.forall_mem_cons] at h
    exact List.forall_mem_singleton.mpr (documented_array (hpart h.2 fun h => ih h (hself h)))
  | union members ih =>
    rw [nodes, nodesList_eq_flatMap, List.forall_mem_cons, List.forall_mem_flatMap] at h
    rw [leaves_union, List.forall_mem_flatMap]
    exact fun e he => ih e he (h.2 e he) (hself (h.2 e he))
  | object fields ih =>
    rw [nodes, nodesFields_eq_flatMap, List.forall_mem_cons, List.forall_mem_flatMap] at h
    exact List.forall_mem_singleton.mpr (documented_object fun f hf =>
      hpart (h.2 f hf) fun h => ih f hf h (hself h))
  | index key value ihkey ihvalue =>
    rw [nodes, List.forall_mem_cons, List.forall_mem_append] at h
    exact List.forall_mem_singleton.mpr (documented_entry
      (hpart h.2.1 fun h => ihkey h (hself h)) (hpart h.2.2 fun h => ihvalue h (hself h))
      (by decide) (by decide))
  | mapped key value optional ihkey ihvalue =>
    rw [nodes, List.forall_mem_cons, List.forall_mem_append] at h
    exact List.forall_mem_singleton.mpr (documented_entry
      (hpart h.2.1 fun h => ihkey h (hself h)) (hpart h.2.2 fun h => ihvalue h (hself h))
      (by decide) (by cases optional <;> decide))

end Expr

namespace Declaration

/-- The declaration without documentation. -/
def eraseDocs : Declaration → Declaration
  | .alias name typeParams type => .alias name typeParams type.eraseDocs
  | .enum name members => .enum name members

/-- The texts that are quoted in a declaration, in the order in which they are written. -/
def quoted : Declaration → List String
  | .alias _ _ type => type.quoted
  | .enum _ members =>
    members.flatMap fun m => Expr.quotedKey m.name ++ Expr.quotedLiteral m.value

/-- The type parameters of a declaration. -/
def typeParams : Declaration → List String
  | .alias _ typeParams _ => typeParams
  | .enum _ _ => []

/-- Whether a declaration is plain: names are identifiers and all nodes are plain. -/
structure IsPlain (d : Declaration) : Prop where
  /-- The name is an identifier. -/
  name : isIdentifier d.name = true
  /-- So are the type parameters. -/
  typeParams : ∀ parameter ∈ d.typeParams, isIdentifier parameter = true
  /-- All nodes are plain. -/
  nodes : ∀ node ∈ d.nodes, node.IsPlain

/-- The lines of a declaration. -/
def lines : Declaration → List Line
  | .alias name typeParams type =>
    (Passage.ofString ("export type " ++ name ++ parameterList typeParams ++ " = ") ++
      type.layout ++ Passage.ofString ";").toLines
  | .enum name [] => [⟨0, "export enum " ++ name ++ " \x7b\x7d"⟩]
  | .enum name members =>
    ⟨0, "export enum " ++ name ++ " \x7b"⟩ ::
      (members.map (fun m => ⟨1, memberText m⟩) ++ [⟨0, "\x7d"⟩])

/-- The text of a declaration consists of its lines. -/
theorem toList_toText (indent : Indent) (d : Declaration) :
    (d.toText indent).toList = lineChars indent.unit d.lines := by
  match d with
  | .alias name typeParams type =>
    rw [toText, toFragments, layOut_toFragments, String.toList_join, List.flatMap_map, lineChars,
      lines]
    refine List.flatMap_congr fun l _ => ?_
    rw [String.toList_append]
    rfl
  | .enum name [] =>
    rw [toText, toFragments, layOut_line, String.toList_append, lines, lineChars_cons]
    simp [copies, lineChars]
  | .enum name (member :: members) =>
    have hbody : ((member :: members).map fun m => Fragment.line (memberText m)) =
        ((member :: members).map memberText).map .line := by
      rw [List.map_map]
      rfl
    rw [toText, toFragments]
    · rw [hbody, layOut_block, lines]
      · simp [lineChars, Line.toText, copies, String.toList_join, List.flatMap_map]
      · simp
    · simp

/-- Type parameters are written as words between angle brackets. -/
theorem code_parameterList {typeParams : List String}
    (h : ∀ parameter ∈ typeParams, isIdentifier parameter = true) :
    Code [] (parameterList typeParams).toList := by
  have hwords : Code [] (String.intercalate ", " typeParams).toList := by
    induction typeParams with
    | nil => exact .of_all (by decide)
    | cons first rest ih =>
      rw [List.forall_mem_cons] at h
      have hfirst := code_of_all_isWord (all_isWord_of_isIdentifier h.1)
      cases rest with
      | nil => rwa [String.intercalate_singleton]
      | cons second rest =>
        have hseparator : Code [] ", ".toList := .of_all (by decide)
        rw [String.intercalate_cons_cons, String.toList_append, String.toList_append]
        exact (hfirst.append hseparator).append (ih h.2)
  unfold parameterList
  split
  · exact .of_all (by decide)
  · have hopen : Code [] "<".toList := .of_all (by decide)
    have hclose : Code [] ">".toList := .of_all (by decide)
    rw [String.toList_append, String.toList_append]
    exact (hopen.append hwords).append hclose

/-- The text of a member of an enumeration quotes its name and its value where they are quoted. -/
theorem code_memberText (m : EnumMember) :
    Code (Expr.quotedKey m.name ++ Expr.quotedLiteral m.value) (memberText m).toList := by
  have hequals : Code [] " = ".toList := .of_all (by decide)
  have hcomma : Code [] ",".toList := .of_all (by decide)
  have hall := (((Expr.code_propertyKey m.name).append hequals).append
    (Expr.code_literal m.value)).append hcomma
  rw [List.append_nil, List.append_nil] at hall
  rw [memberText, String.toList_append, String.toList_append, String.toList_append]
  exact hall

/-- The lines of a plain declaration with and without documentation. -/
theorem documented_lines {d : Declaration} (h : d.IsPlain) :
    Layout.Documented d.quoted d.lines d.eraseDocs.lines := by
  have hword : Code [] d.name.toList := code_of_all_isWord (all_isWord_of_isIdentifier h.name)
  match d with
  | .alias name typeParams type =>
    have hexport : Code [] "export type ".toList := .of_all (by decide)
    have hequals : Code [] " = ".toList := .of_all (by decide)
    have hhead := ((hexport.append hword).append (code_parameterList h.typeParams)).append hequals
    simp only [Declaration.name, Declaration.typeParams, ← String.toList_append] at hhead
    exact ((Passage.Documented.ofString hhead).append
      (Expr.documented h.nodes)).toLines_semicolon
  | .enum name [] =>
    have hexport : Code [] "export enum ".toList := .of_all (by decide)
    have hbraces : Code [] " \x7b\x7d".toList := .of_all (by decide)
    have hline := (hexport.append hword).append hbraces
    simp only [Declaration.name, ← String.toList_append] at hline
    exact .last hline
  | .enum name (member :: members) =>
    have hexport : Code [] "export enum ".toList := .of_all (by decide)
    have hopen : Code [] " \x7b".toList := .of_all (by decide)
    have hhead := (hexport.append hword).append hopen
    simp only [Declaration.name, ← String.toList_append] at hhead
    have hclose : Layout.Documented [] [⟨0, "\x7d"⟩] [⟨0, "\x7d"⟩] := .last (.of_all (by decide))
    have hmembers (ms : List EnumMember) : Layout.Documented
        (ms.flatMap fun m => Expr.quotedKey m.name ++ Expr.quotedLiteral m.value)
        (ms.map (fun m => ⟨1, memberText m⟩) ++ [⟨0, "\x7d"⟩])
        (ms.map (fun m => ⟨1, memberText m⟩) ++ [⟨0, "\x7d"⟩]) := by
      induction ms with
      | nil => exact hclose
      | cons m ms ih => exact .cons_line (code_memberText m) ih
    have hall := Layout.Documented.cons_line (l := ⟨0, "export enum " ++ name ++ " \x7b"⟩) hhead
      (hmembers (member :: members))
    exact hall

/-- Scanning the text of a plain declaration takes it apart into rows. Each text is quoted in one of
them and can be read back, documentation is in comments on rows of their own, and the other rows are
the text of the declaration without documentation. -/
theorem scan_toText (indent : Indent) {d : Declaration} (h : d.IsPlain) :
    ∃ rows : List (List Piece),
      scan (d.toText indent).toList = some (rows.flatMap (· ++ [.code '\n'])) ∧
        Separates rows d.quoted (d.eraseDocs.toText indent).toList := by
  obtain ⟨rows, hscans, hrows⟩ := (documented_lines h).exists_rows (all_isIndent_unit indent)
  rw [toList_toText, toList_toText]
  exact ⟨rows, hscans.scan_eq, hrows⟩

end Declaration

/-- A page whose texts try to get out of their quotes and comments. -/
def page : Declaration :=
  .alias "Page" ["T"] (.object [
    ⟨"\"; /*", .union [.keyword .null, .literal (.text "*/ \\\"\n")], true,
      some "Ends here: */ \"\r\nor there: */"⟩,
    ⟨"items", .array (.object [⟨"item", .parameter "T", false, some "*/"⟩]), false, none⟩])

/-- The general theorem at this page. -/
theorem scan_toText_page : page.IsPlain ∧ ∃ rows : List (List Piece),
    scan (page.toText (.spaces 2)).toList = some (rows.flatMap (· ++ [.code '\n'])) ∧
      Separates rows ["\"; /*", "*/ \\\"\n"] (page.eraseDocs.toText (.spaces 2)).toList := by
  have hplain : page.IsPlain := ⟨by decide, by decide, by decide⟩
  exact ⟨hplain, Declaration.scan_toText (.spaces 2) hplain⟩

end Declgen.TypeScript
