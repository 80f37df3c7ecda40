import Declgen.Proofs.Layout.Comments
import Declgen.Proofs.Text.Splitting

/-!
# Passages with comments

A passage with comments and the same passage without them are put together in the same way: code is
joined to code, and comments stand between lines of code. This is kept by everything that passages
are built with. So the text of the first one is that of the second one with the lines of comments
added.
-/

namespace Declgen.Layout

open Text

/-- What may stand between two lines of code: nothing or the lines of a comment. -/
def IsComment (c : List Line) : Prop :=
  c = [] ∨ ∃ depth doc, c = (commentLines doc).map (⟨depth, ·⟩)

/-- Lines with comments, and the same lines without them. The first line and the last one are code,
and the texts `ts` are quoted in the code. -/
inductive Documented : List String → List Line → List Line → Prop
  /-- A single line. -/
  | last {ts : List String} {l : Line} (hl : Code ts l.body.toList) : Documented ts [l] [l]
  /-- A line, possibly a comment after it, and further lines. -/
  | cons {us ts : List String} {l : Line} {c ls ls' : List Line} (hl : Code us l.body.toList)
    (hc : IsComment c) (h : Documented ts ls ls') :
    Documented (us ++ ts) (l :: (c ++ ls)) (l :: ls')

/-- A comment stays one when it moves one level deeper. -/
theorem IsComment.deeper {c : List Line} (h : IsComment c) : IsComment (c.map Line.deeper) := by
  rcases h with hnone | ⟨depth, doc, hlines⟩
  · rw [hnone]
    exact .inl rfl
  · refine .inr ⟨depth + 1, doc, ?_⟩
    rw [hlines, List.map_map]
    rfl

/-- If there are two lines or more, the first one is not touched by joining. -/
theorem joinLines_cons {l : Line} {ls ms : List Line} (hls : ls ≠ []) :
    joinLines (l :: ls) ms = l :: joinLines ls ms := by
  obtain ⟨l', ls, rfl⟩ := List.exists_cons_of_ne_nil hls
  rfl

/-- Lines in front are not touched by joining. -/
theorem joinLines_append {c ls ms : List Line} (hls : ls ≠ []) :
    joinLines (c ++ ls) ms = c ++ joinLines ls ms := by
  induction c with
  | nil => rfl
  | cons l c ih => rw [List.cons_append, joinLines_cons (by simp [hls]), ih, List.cons_append]

/-- Joining leaves a line. -/
theorem joinLines_ne_nil (ls : List Line) (m : Line) (ms : List Line) :
    joinLines ls (m :: ms) ≠ [] := by
  match ls with
  | [] => exact List.cons_ne_nil _ _
  | [l] => exact List.cons_ne_nil _ _
  | l :: l' :: ls => exact List.cons_ne_nil _ _

/-- The last line is not empty after something has been put behind it. -/
theorem getLast?_joinLines {ls : List Line} {m l : Line} (hm : m.body ≠ "")
    (h : (joinLines ls [m]).getLast? = some l) : l.body ≠ "" := by
  induction ls with
  | nil =>
    cases h
    exact hm
  | cons k ls ih =>
    cases ls with
    | nil =>
      cases h
      simp [hm]
    | cons k' ls =>
      rw [joinLines_cons (List.cons_ne_nil _ _)] at h
      obtain ⟨n, ns, hns⟩ := List.exists_cons_of_ne_nil (joinLines_ne_nil (k' :: ls) m [])
      rw [hns, List.getLast?_cons_cons, ← hns] at h
      exact ih h

/-- Lines that a carriage return does not end stay as they are when they are completed, unless the
last one is empty. -/
theorem complete_eq_self {ls : List Line} (hchomp : ∀ l ∈ ls, chomp l.body = l.body)
    (hlast : ∀ l, ls.getLast? = some l → l.body ≠ "") : Passage.complete ls = ls := by
  match ls with
  | [] => rfl
  | [l] =>
    have hne : l.body.isEmpty = false := by simpa using hlast l rfl
    rw [Passage.complete, hne]
    rfl
  | l :: l' :: ls =>
    rw [List.forall_mem_cons] at hchomp
    have hl : l.chomp = l := by rw [Line.chomp, hchomp.1]
    rw [Passage.complete, hl, complete_eq_self hchomp.2 fun m hm => hlast m ?_]
    rw [List.getLast?_cons_cons]
    exact hm

namespace Documented

variable {ts us : List String} {ls ls' ms ms' c : List Line}

/-- There is a line with the comments, and one without them. -/
theorem ne_nil (h : Documented ts ls ls') : ls ≠ [] ∧ ls' ≠ [] := by
  cases h <;> simp

/-- Lines joined to lines. -/
theorem join (h : Documented ts ls ls') (h' : Documented us ms ms') :
    Documented (ts ++ us) (joinLines ls ms) (joinLines ls' ms') := by
  induction h with
  | last hl =>
    cases h' with
    | last hm =>
      refine .last ?_
      rw [String.toList_append]
      exact hl.append hm
    | cons hm hc h' =>
      rw [← List.append_assoc]
      refine .cons ?_ hc h'
      rw [String.toList_append]
      exact hl.append hm
  | @cons _ _ l c ls ls' hl hc h ih =>
    rw [List.append_assoc, joinLines_cons (by simp [h.ne_nil.1]), joinLines_append h.ne_nil.1,
      joinLines_cons h.ne_nil.2]
    exact .cons hl hc ih

/-- Lines below lines, possibly with a comment between them. -/
theorem above (h : Documented ts ls ls') (hc : IsComment c) (h' : Documented us ms ms') :
    Documented (ts ++ us) (ls ++ (c ++ ms)) (ls' ++ ms') := by
  induction h with
  | last hl =>
    rw [List.singleton_append, List.singleton_append]
    exact .cons hl hc h'
  | cons hl hc' _ ih =>
    rw [List.append_assoc, List.cons_append, List.append_assoc, List.cons_append]
    exact .cons hl hc' ih

/-- Comments move one level deeper with their lines. -/
theorem deeper (h : Documented ts ls ls') :
    Documented ts (ls.map Line.deeper) (ls'.map Line.deeper) := by
  induction h with
  | last hl => exact .last hl
  | cons hl hc _ ih =>
    rw [List.map_cons, List.map_append, List.map_cons]
    exact .cons hl hc.deeper ih

/-- A line of code above others. -/
theorem cons_line {l : Line} (hl : Code us l.body.toList) (h : Documented ts ls ls') :
    Documented (us ++ ts) (l :: ls) (l :: ls') := .cons hl (.inl rfl) h

/-- Lines that are code themselves. -/
theorem self (h : Documented ts ls ls') : Documented ts ls' ls' := by
  induction h with
  | last hl => exact .last hl
  | cons hl _ _ ih => exact .cons_line hl ih

/-- No line ends with a carriage return. -/
theorem chomp_eq (h : Documented ts ls ls') : ∀ l ∈ ls, chomp l.body = l.body := by
  have hcode {ts : List String} {l : Line} (hl : Code ts l.body.toList) :
      chomp l.body = l.body := by
    rw [chomp, if_neg fun hlast => hl.notMem.2 (List.mem_of_getLast? hlast)]
  induction h with
  | last hl => simpa using hcode hl
  | @cons _ _ l c ls ls' hl hc _ ih =>
    simp only [List.mem_cons, List.mem_append]
    rintro m (rfl | hm | hm)
    · exact hcode hl
    · rcases hc with hnone | ⟨depth, doc, hlines⟩
      · rw [hnone] at hm
        cases hm
      · rw [hlines] at hm
        obtain ⟨line, hline, rfl⟩ := List.mem_map.mp hm
        exact chomp_of_mem_commentLines hline
    · exact ih m hm

end Documented

/-! ### Passages -/

namespace Passage

variable {ts us : List String} {p p' q q' : Passage}

/-- A passage with comments and the same passage without them. -/
def Documented (ts : List String) (p p' : Passage) : Prop := Layout.Documented ts p.lines p'.lines

namespace Documented

/-- A stretch of code is the same with and without comments. -/
theorem ofString {s : String} (h : Code ts s.toList) :
    Documented ts (ofString s) (ofString s) := by
  rw [Documented, Passage.ofString, splitAt_of_notMem h.notMem.1]
  exact .last h

/-- Two passages with comments can be put together. -/
theorem append (h : Documented ts p p') (h' : Documented us q q') :
    Documented (ts ++ us) (p ++ q) (p' ++ q') :=
  h.join h'

/-- Several passages with a separator between them. -/
theorem join {α : Type} {separator : String} (hseparator : Code [] separator.toList)
    {texts : α → List String} {f f' : α → Passage} {as : List α}
    (h : ∀ a ∈ as, Documented (texts a) (f a) (f' a)) :
    Documented (as.flatMap texts) (Passage.join separator (as.map f))
      (Passage.join separator (as.map f')) := by
  induction as with
  | nil => exact ofString .nil
  | cons a as ih =>
    rw [List.forall_mem_cons] at h
    cases as with
    | nil =>
      rw [List.flatMap_singleton]
      exact h.1
    | cons b as =>
      have := (h.1.append (ofString hseparator)).append (ih h.2)
      rwa [List.append_nil] at this

/-- A passage with a semicolon behind it is complete. -/
theorem complete_semicolon (h : Documented ts p p') :
    (p ++ Passage.ofString ";").toLines = (p ++ Passage.ofString ";").lines := by
  have hsemicolon : Code [] ";".toList := .of_all (by decide)
  have hlast : ∀ l, (p ++ Passage.ofString ";").lines.getLast? = some l → l.body ≠ "" :=
    fun l hl => getLast?_joinLines (by decide) hl
  rw [Passage.toLines, complete_eq_self (h.append (ofString hsemicolon)).chomp_eq hlast]

/-- The complete lines of a declaration, once it has got its semicolon. -/
theorem toLines_semicolon (h : Documented ts p p') :
    Layout.Documented ts (p ++ Passage.ofString ";").toLines
      (p' ++ Passage.ofString ";").toLines := by
  have hself : Documented ts p' p' := h.self
  have hsemicolon : Code [] ";".toList := .of_all (by decide)
  have hall := h.append (ofString hsemicolon)
  rw [List.append_nil] at hall
  rw [h.complete_semicolon, hself.complete_semicolon]
  exact hall

/-- Entries between braces, each possibly with a comment above it. -/
theorem braced {α : Type} {texts : α → List String} {docs f f' : α → List Line} {as : List α}
    (h : ∀ a ∈ as, IsComment (docs a) ∧ Layout.Documented (texts a) (f a) (f' a)) :
    Documented (as.flatMap texts) (Passage.braced (as.flatMap fun a => docs a ++ f a))
      (Passage.braced (as.flatMap f')) := by
  -- The entries are put below each other, starting with the opening brace.
  have hentries {us : List String} {ls ls' : List Line} (hls : Layout.Documented us ls ls') :
      Layout.Documented (us ++ as.flatMap texts)
        (ls ++ (as.flatMap fun a => docs a ++ f a).map Line.deeper)
        (ls' ++ (as.flatMap f').map Line.deeper) := by
    induction as generalizing us ls ls' with
    | nil => simpa using hls
    | cons a as ih =>
      rw [List.forall_mem_cons] at h
      simp only [List.flatMap_cons, List.map_append, ← List.append_assoc]
      refine ih h.2 ?_
      rw [List.append_assoc ls]
      exact hls.above h.1.1.deeper h.1.2.deeper
  have hopen : Layout.Documented [] [⟨0, "\x7b"⟩] [⟨0, "\x7b"⟩] := .last (.of_all (by decide))
  have hclose : Layout.Documented [] [⟨0, "\x7d"⟩] [⟨0, "\x7d"⟩] := .last (.of_all (by decide))
  have hall := (hentries hopen).above (.inl rfl) hclose
  rw [List.append_nil, List.nil_append, List.nil_append] at hall
  exact hall

/-- One entry between braces. -/
theorem braced_entry {ls ls' : List Line} (h : Layout.Documented ts ls ls') :
    Documented ts (Passage.braced ls) (Passage.braced ls') := by
  have hall : Documented ([()].flatMap fun _ => ts)
      (Passage.braced ([()].flatMap fun _ => [] ++ ls))
      (Passage.braced ([()].flatMap fun _ => ls')) :=
    braced fun _ _ => ⟨.inl rfl, h⟩
  simpa using hall

end Documented

end Passage

/-! ### The text -/

/-- The rows of a text that has been scanned are its lines, each taken apart into pieces. Within
them the texts `ts` are quoted, each comment has a row of its own, and the other rows make up the
text `code`. -/
structure Separates (rows : List (List Piece)) (ts : List String) (code : List Char) : Prop where
  /-- Outside of quotes and comments no row has a line break. -/
  plain : ∀ row ∈ rows, Piece.code '\n' ∉ row
  /-- There are no line breaks between quotes either. -/
  quoted : ∀ row ∈ rows, ∀ s, Piece.quoted s ∈ row → '\n' ∉ s ∧ '\r' ∉ s
  /-- Undoing the escapes between the quotes gives the texts back. -/
  texts : (rows.flatten.filterMap Piece.quoted?).map unescape = ts.map fun s => some s.toList
  /-- A row with a comment has nothing else but the blanks that indent it. -/
  comments : ∀ row ∈ rows, ∀ s, Piece.comment s ∈ row →
    ∃ blanks : List Char, blanks.all isIndent = true ∧ row = blanks.map .code ++ [.comment s]
  /-- The other rows are what the code says. -/
  code : ((rows.filter fun row => !row.any Piece.isComment).flatMap fun row =>
    row.flatMap Piece.chars ++ ['\n']) = code

section Rows

variable {rows : List (List Piece)} {ts : List String} {code blanks : List Char}

/-- A text without lines. -/
private theorem separates_nil : Separates [] [] [] := ⟨by simp, by simp, rfl, by simp, rfl⟩

/-- The blanks that indent a row are no line breaks. -/
theorem notMem_indent (h : blanks.all isIndent = true) : '\n' ∉ blanks := fun hmem => by
  have := List.all_eq_true.mp h _ hmem
  exact absurd this (by decide)

/-- A row of code before other rows. -/
theorem Separates.cons_code (h : Separates rows ts code) {body : List Char} {us : List String}
    (hblanks : blanks.all isIndent = true) (hbody : Code us body) : ∃ row,
    Scans (blanks ++ body ++ ['\n']) (row ++ [.code '\n']) ∧
      Separates (row :: rows) (us ++ ts) (blanks ++ body ++ ['\n'] ++ code) := by
  obtain ⟨ps, hscans, hchars, hcomment, hfeed, hquoted, htexts⟩ := hbody.exists_pieces
  refine ⟨blanks.map .code ++ ps, ((scans_indent hblanks).append hscans).append
    (.code (by decide) (by decide)), ?_, ?_, ?_, ?_, ?_⟩
  · rw [List.forall_mem_cons]
    refine ⟨?_, h.plain⟩
    simp [hfeed, notMem_indent hblanks]
  · rw [List.forall_mem_cons]
    refine ⟨fun s hs => hquoted s ?_, h.quoted⟩
    simpa using hs
  · have hnone : (blanks.map Piece.code).filterMap Piece.quoted? = [] := by
      simp [List.filterMap_map, Function.comp_def, Piece.quoted?]
    rw [List.flatten_cons, List.filterMap_append, List.filterMap_append, hnone, List.nil_append,
      List.map_append, List.map_append, htexts, h.texts]
  · rw [List.forall_mem_cons]
    refine ⟨fun s hs => ?_, h.comments⟩
    have hmem : Piece.comment s ∈ ps := by simpa using hs
    exact absurd (hcomment _ hmem) (by simp [Piece.isComment])
  · have hrow : (blanks.map Piece.code ++ ps).any Piece.isComment = false := by
      rw [List.any_eq_false]
      intro p hp
      rcases List.mem_append.mp hp with hp | hp
      · obtain ⟨c, -, rfl⟩ := List.mem_map.mp hp
        exact Bool.false_ne_true
      · rw [hcomment p hp]
        exact Bool.false_ne_true
    have hblanks' : (blanks.map Piece.code).flatMap Piece.chars = blanks := by
      simp [List.flatMap_map, Piece.chars]
    rw [List.filter_cons_of_pos (by simp [hrow]), List.flatMap_cons, List.flatMap_append, hchars,
      hblanks', h.code]

/-- A row with a comment before other rows. -/
theorem Separates.cons_comment (h : Separates rows ts code) {s : List Char}
    (hblanks : blanks.all isIndent = true) (hs : Inside s) : ∃ row,
    Scans (blanks ++ (Piece.comment s).chars ++ ['\n']) (row ++ [.code '\n']) ∧
      Separates (row :: rows) ts code := by
  refine ⟨blanks.map .code ++ [.comment s], ((scans_indent hblanks).append hs.scans).append
    (.code (by decide) (by decide)), ?_, ?_, ?_, ?_, ?_⟩
  · rw [List.forall_mem_cons]
    refine ⟨?_, h.plain⟩
    simp [notMem_indent hblanks]
  · rw [List.forall_mem_cons]
    refine ⟨fun t ht => ?_, h.quoted⟩
    simp at ht
  · have hnone : (blanks.map Piece.code ++ [Piece.comment s]).filterMap Piece.quoted? = [] := by
      simp [List.filterMap_map, Function.comp_def, Piece.quoted?]
    rw [List.flatten_cons, List.filterMap_append, hnone, List.nil_append, h.texts]
  · rw [List.forall_mem_cons]
    refine ⟨fun t ht => ⟨blanks, hblanks, ?_⟩, h.comments⟩
    have heq : t = s := by simpa using ht
    rw [heq]
  · rw [List.filter_cons_of_neg (by simp [Piece.isComment]), h.code]

end Rows

/-- The text of lines with comments, taken apart. -/
theorem Documented.exists_rows {ts : List String} {ls ls' : List Line} (h : Documented ts ls ls')
    {unit : String} (hunit : unit.toList.all isIndent = true) : ∃ rows : List (List Piece),
    Scans (lineChars unit ls) (rows.flatMap (· ++ [.code '\n'])) ∧
      Separates rows ts (lineChars unit ls') := by
  induction h with
  | @last ts l hl =>
    obtain ⟨row, hscans, hrow⟩ :=
      separates_nil.cons_code (all_isIndent_copies hunit l.depth) hl
    have hline : lineChars unit [l] =
        (copies l.depth unit).toList ++ l.body.toList ++ ['\n'] := by
      rw [lineChars_cons]
      exact List.append_nil _
    rw [List.append_nil, List.append_nil, ← hline] at hrow
    rw [← hline] at hscans
    refine ⟨[row], ?_, hrow⟩
    rw [List.flatMap_singleton]
    exact hscans
  | @cons us ts l c ls ls' hl hc _ ih =>
    obtain ⟨rows, hscans, hrows⟩ := ih
    -- First the comment, if there is one.
    obtain ⟨rows', hscans', hrows'⟩ : ∃ rows' : List (List Piece),
        Scans (lineChars unit (c ++ ls)) (rows'.flatMap (· ++ [.code '\n'])) ∧
          Separates rows' ts (lineChars unit ls') := by
      rcases hc with hnone | ⟨depth, doc, hlines⟩
      · rw [hnone]
        exact ⟨rows, hscans, hrows⟩
      · obtain ⟨s, hs, hchars⟩ := exists_comment hunit doc depth
        obtain ⟨row, hscan, hrow⟩ := hrows.cons_comment (all_isIndent_copies hunit depth) hs
        refine ⟨row :: rows, ?_, hrow⟩
        rw [hlines, lineChars_append, hchars, List.flatMap_cons]
        exact hscan.append hscans
    obtain ⟨row, hscan, hrow⟩ := hrows'.cons_code (all_isIndent_copies hunit l.depth) hl
    refine ⟨row :: rows', ?_, ?_⟩
    · rw [lineChars_cons, List.flatMap_cons]
      exact hscan.append hscans'
    · rw [lineChars_cons]
      exact hrow

end Declgen.Layout
