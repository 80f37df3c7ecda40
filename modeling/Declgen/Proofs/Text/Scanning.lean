import Declgen.Proofs.Text.Quoted

/-!
# Scanning text

A scan goes through a text from left to right and takes it apart: a quote opens a quoted text, which
ends at the next quote that no backslash escapes, and `/*` opens a comment, which ends at the first
`*/`. It fails if the text ends within either of them. What a text is taken apart into does not
depend on what follows, as long as the text ends outside of quotes and comments.
-/

namespace Declgen.Text

/-- A piece of a text that has been scanned. -/
inductive Piece where
  /-- A character outside of quotes and comments. -/
  | code (c : Char)
  /-- What stands between two quotes, as it is written. -/
  | quoted (s : List Char)
  /-- What stands between `/*` and `*/`. -/
  | comment (s : List Char)
deriving DecidableEq

namespace Piece

/-- A piece as it is written. -/
def chars : Piece → List Char
  | .code c => [c]
  | .quoted s => '"' :: (s ++ ['"'])
  | .comment s => '/' :: '*' :: (s ++ ['*', '/'])

/-- What stands between quotes. -/
def quoted? : Piece → Option (List Char)
  | .quoted s => some s
  | _ => none

/-- Whether a piece is a comment. -/
def isComment : Piece → Bool
  | .comment _ => true
  | _ => false

end Piece

/-- Where a scan stands: outside, between quotes or in a comment, with what has been read there. -/
inductive Place where
  | code
  | quoted (before : List Char)
  | comment (before : List Char)

/-- Scans a text from a place on. -/
def scanFrom : Place → List Char → Option (List Piece)
  | .code, [] => some []
  | .code, '"' :: cs => scanFrom (.quoted []) cs
  | .code, '/' :: '*' :: cs => scanFrom (.comment []) cs
  | .code, c :: cs => (scanFrom .code cs).map (.code c :: ·)
  | .quoted before, '"' :: cs => (scanFrom .code cs).map (.quoted before :: ·)
  | .quoted before, '\\' :: c :: cs => scanFrom (.quoted (before ++ ['\\', c])) cs
  | .quoted before, c :: cs => scanFrom (.quoted (before ++ [c])) cs
  | .comment before, '*' :: '/' :: cs => (scanFrom .code cs).map (.comment before :: ·)
  | .comment before, c :: cs => scanFrom (.comment (before ++ [c])) cs
  | .quoted _, [] | .comment _, [] => none

/-- The pieces of a text, unless it ends between quotes or in a comment. -/
def scan (cs : List Char) : Option (List Piece) := scanFrom .code cs

/-- A text is taken apart into some pieces, whatever follows. -/
def Scans (cs : List Char) (ps : List Piece) : Prop :=
  ∀ rest, scan (cs ++ rest) = (scan rest).map (ps ++ ·)

namespace Scans

variable {cs cs' : List Char} {ps ps' : List Piece}

/-- The empty text is taken apart into no pieces. -/
theorem nil : Scans [] [] := fun rest => by simp

/-- Texts that are taken apart one after the other. -/
theorem append (h : Scans cs ps) (h' : Scans cs' ps') : Scans (cs ++ cs') (ps ++ ps') := by
  intro rest
  rw [List.append_assoc, h, h', Option.map_map]
  congr 1
  funext qs
  exact (List.append_assoc ps ps' qs).symm

/-- What a text is taken apart into is what a scan of it gives. -/
theorem scan_eq (h : Scans cs ps) : scan cs = some ps := by
  have := h []
  simpa [scan, scanFrom] using this

/-- A character that opens neither quotes nor a comment. -/
theorem code {c : Char} (hquote : c ≠ '"') (hslash : c ≠ '/') : Scans [c] [.code c] := by
  intro rest
  rw [List.singleton_append, scan, scanFrom]
  · rfl
  · exact hquote
  · intro _ heq
    exact absurd heq hslash

/-- Characters that open neither quotes nor a comment. -/
theorem codes (h : ∀ c ∈ cs, c ≠ '"' ∧ c ≠ '/') : Scans cs (cs.map .code) := by
  induction cs with
  | nil => exact nil
  | cons c cs ih =>
    rw [List.forall_mem_cons] at h
    exact (code h.1.1 h.1.2).append (ih h.2)

end Scans

/-! ### Quoted text -/

/-- Between quotes a scan goes on to the first quote that no backslash escapes. -/
theorem scanFrom_quoted (before cs : List Char) :
    scanFrom (.quoted before) cs = (cutQuote cs).bind fun parts =>
      (scan parts.2).map (.quoted (before ++ parts.1) :: ·) := by
  induction cs using cutQuote.induct generalizing before with
  | case1 => rfl
  | case2 cs => simp [scanFrom, cutQuote, scan]
  | case3 c cs ih =>
    rw [scanFrom, cutQuote, ih, Option.bind_map]
    simp only [List.append_assoc, List.cons_append, List.nil_append]
    rfl
  | case4 c cs hquote hbackslash ih =>
    rw [scanFrom, cutQuote, ih, Option.bind_map]
    · simp only [List.append_assoc, List.cons_append, List.nil_append]
      rfl
    all_goals simp_all

/-- A quoted text is one piece. -/
theorem Scans.quote (s : String) : Scans (quote s).toList [.quoted (s.toList.flatMap escape)] := by
  intro rest
  rw [toList_quote, List.cons_append, List.append_assoc, List.singleton_append, scan, scanFrom,
    scanFrom_quoted, cutQuote_escape]
  rfl

/-! ### Comments -/

/-- A comment goes on through a text, whatever follows. -/
def Inside (cs : List Char) : Prop :=
  ∀ before rest, scanFrom (.comment before) (cs ++ rest) = scanFrom (.comment (before ++ cs)) rest

namespace Inside

variable {cs cs' : List Char} {c : Char}

/-- A comment goes on through the empty text. -/
theorem nil : Inside [] := fun before rest => by simp

/-- A comment goes on through texts one after the other. -/
theorem append (h : Inside cs) (h' : Inside cs') : Inside (cs ++ cs') := by
  intro before rest
  rw [List.append_assoc, h, h', List.append_assoc]

/-- A comment goes on through a text without a comment end, up to a character that is not part of
one. -/
theorem concat (hcs : ¬ ['*', '/'] <:+: cs) (hstar : c ≠ '*') (hslash : c ≠ '/') :
    Inside (cs ++ [c]) := by
  induction cs with
  | nil =>
    intro before rest
    rw [List.nil_append, List.singleton_append, scanFrom]
    intro _ heq
    exact absurd heq hstar
  | cons d cs ih =>
    have htail : ¬ ['*', '/'] <:+: cs := fun h => hcs (h.trans (List.suffix_cons d cs).isInfix)
    intro before rest
    rw [List.cons_append, List.cons_append, scanFrom, ih htail]
    · simp
    -- What follows a star is not a slash.
    intro cs' hd heq
    subst hd
    cases cs with
    | nil =>
      cases heq
      exact hslash rfl
    | cons e cs =>
      cases heq
      exact hcs ⟨[], cs, rfl⟩

/-- Characters that are no part of a comment end. -/
theorem of_forall (h : ∀ c ∈ cs, c ≠ '*' ∧ c ≠ '/') : Inside cs := by
  induction cs with
  | nil => exact nil
  | cons c cs ih =>
    rw [List.forall_mem_cons] at h
    have hfirst : Inside ([] ++ [c]) := concat (by simp) h.1.1 h.1.2
    exact hfirst.append (ih h.2)

/-- A comment is one piece. -/
theorem scans (h : Inside cs) : Scans (Piece.comment cs).chars [.comment cs] := by
  intro rest
  rw [Piece.chars, List.cons_append, List.cons_append, List.append_assoc, scan, scanFrom, h]
  rfl

end Inside

/-! ### Stretches of code -/

/-- Whether a character can stand in a line outside of quotes and opens nothing. -/
def isPlain (c : Char) : Bool := c != '"' && c != '/' && c != '\n' && c != '\r'

/-- A stretch of a line without comments, in which the texts `ts` are quoted. -/
inductive Code : List String → List Char → Prop
  /-- Nothing. -/
  | nil : Code [] []
  /-- A character outside of quotes. -/
  | char {c : Char} {ts : List String} {cs : List Char} (hc : isPlain c = true) (h : Code ts cs) :
    Code ts (c :: cs)
  /-- A quoted text. -/
  | quote (s : String) {ts : List String} {cs : List Char} (h : Code ts cs) :
    Code (s :: ts) ((quote s).toList ++ cs)

namespace Code

variable {ts ts' : List String} {cs cs' : List Char}

/-- Stretches one after the other quote the texts of both. -/
theorem append (h : Code ts cs) (h' : Code ts' cs') : Code (ts ++ ts') (cs ++ cs') := by
  induction h with
  | nil => exact h'
  | char hc _ ih => exact .char hc ih
  | quote s _ ih =>
    rw [List.cons_append, List.append_assoc]
    exact .quote s ih

/-- A stretch of plain characters quotes nothing. -/
theorem of_all (h : cs.all isPlain = true) : Code [] cs := by
  induction cs with
  | nil => exact .nil
  | cons c cs ih =>
    rw [List.all_cons, Bool.and_eq_true] at h
    exact .char h.1 (ih h.2)

/-- A quoted text is a stretch that quotes it. -/
theorem quote_single (s : String) : Code [s] (Text.quote s).toList := by
  have := Code.quote s .nil
  rwa [List.append_nil] at this

/-- A stretch of a line has no line break. -/
theorem notMem (h : Code ts cs) : '\n' ∉ cs ∧ '\r' ∉ cs := by
  induction h with
  | nil => simp
  | @char c _ _ hc _ ih =>
    simp only [isPlain, Bool.and_eq_true, bne_iff_ne] at hc
    obtain ⟨⟨-, hfeed⟩, hreturn⟩ := hc
    simp [ih, hfeed.symm, hreturn.symm]
  | quote s _ ih =>
    rw [toList_quote]
    simp [ih, -List.mem_flatMap, notMem_escape s.toList]

/-- The pieces of a stretch of code are characters and the quoted texts. -/
theorem exists_pieces (h : Code ts cs) : ∃ ps : List Piece, Scans cs ps ∧
    ps.flatMap Piece.chars = cs ∧ (∀ p ∈ ps, p.isComment = false) ∧ .code '\n' ∉ ps ∧
    (∀ s, .quoted s ∈ ps → '\n' ∉ s ∧ '\r' ∉ s) ∧
    (ps.filterMap Piece.quoted?).map unescape = ts.map fun s => some s.toList := by
  induction h with
  | nil => exact ⟨[], .nil, rfl, by simp, by simp, by simp, rfl⟩
  | @char c ts cs hc _ ih =>
    obtain ⟨ps, hscans, hchars, hcomment, hfeed, hquoted, htexts⟩ := ih
    simp only [isPlain, Bool.and_eq_true, bne_iff_ne] at hc
    obtain ⟨⟨⟨hquote, hslash⟩, hne⟩, -⟩ := hc
    refine ⟨.code c :: ps, (Scans.code hquote hslash).append hscans, ?_, ?_, ?_, ?_, htexts⟩
    · rw [List.flatMap_cons, hchars]
      rfl
    · rw [List.forall_mem_cons]
      exact ⟨rfl, hcomment⟩
    · simp [hfeed, hne.symm]
    · simpa using hquoted
  | @quote s ts cs _ ih =>
    obtain ⟨ps, hscans, hchars, hcomment, hfeed, hquoted, htexts⟩ := ih
    refine ⟨.quoted (s.toList.flatMap escape) :: ps, (Scans.quote s).append hscans, ?_, ?_, ?_, ?_,
      ?_⟩
    · rw [List.flatMap_cons, hchars, toList_quote]
      rfl
    · rw [List.forall_mem_cons]
      exact ⟨rfl, hcomment⟩
    · simp [hfeed]
    · intro s' hs'
      rcases List.mem_cons.mp hs' with heq | hs'
      · cases heq
        exact notMem_escape s.toList
      · exact hquoted s' hs'
    · have hfirst : Piece.quoted? (.quoted (s.toList.flatMap escape)) =
          some (s.toList.flatMap escape) := rfl
      rw [List.filterMap_cons_some hfirst, List.map_cons, unescape_escape, htexts, List.map_cons]

end Code

end Declgen.Text
