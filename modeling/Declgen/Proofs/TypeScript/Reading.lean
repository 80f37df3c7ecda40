import Declgen.Proofs.Layout.Chars
import Declgen.Proofs.TypeScript.Comparison
import Declgen.Proofs.TypeScript.Words

/-!
# Reading types

A reader takes a type off the front of a text. One character of lookahead tells the forms of types
apart, and the blanks that indent a line are skipped. A type is read back from its text without the
numbers of the units that it refers to, and its names are taken for type parameters, since that is
all that the text says.
-/

namespace Declgen.TypeScript

open Layout Text

/-- A reader takes something off the front of a text. -/
abbrev Reader (α : Type) := List Char → Option (α × List Char)

/-- A reader takes a stretch off any text whose next character is one of those that may follow. -/
def Reads {α : Type} (r : Reader α) (follow : Char → Bool) (cs : List Char) (a : α) : Prop :=
  ∀ rest : List Char, rest.head?.all follow = true → r (cs ++ rest) = some (a, rest)

/-- A reader that stops before some characters stops before fewer of them. -/
theorem Reads.mono {α : Type} {r : Reader α} {follow follow' : Char → Bool} {cs : List Char} {a : α}
    (h : Reads r follow cs a) (hfollow : ∀ c, follow' c = true → follow c = true) :
    Reads r follow' cs a := by
  intro rest hrest
  refine h rest ?_
  cases rest with
  | nil => rfl
  | cons c rest => exact hfollow c hrest

/-! ### Tokens, blanks and lists -/

/-- The text after a token. -/
def token (s : String) (cs : List Char) : Option (List Char) := cs.dropPrefix? s.toList

/-- A token is taken off the front of a text that starts with it. -/
theorem token_append (s : String) (cs : List Char) : token s (s.toList ++ cs) = some cs :=
  List.dropPrefix?_append_of_beq cs (beq_self_eq_true s.toList)

/-- A token that starts with a character that may not follow is not there. -/
theorem token_eq_none {s : String} {follow : Char → Bool}
    (hs : s.toList.head?.any (fun c => !follow c) = true) {rest : List Char}
    (hrest : rest.head?.all follow = true) : token s rest = none := by
  cases hcs : s.toList with
  | nil =>
    rw [hcs] at hs
    cases hs
  | cons c cs =>
    cases rest with
    | nil => simp [token, hcs, List.dropPrefix?]
    | cons d rest =>
      have hne : d ≠ c := by
        rintro rfl
        rw [List.head?_cons, Option.all_some] at hrest
        rw [hcs, List.head?_cons, Option.any_some, hrest] at hs
        cases hs
      simp [token, hcs, List.dropPrefix?, hne]

/-- Whether a character breaks or indents lines. -/
def isSpacing (c : Char) : Bool := c == '\n' || isIndent c

/-- The text without line breaks and indentation at its start. -/
def skipSpacing (cs : List Char) : List Char := cs.dropWhile isSpacing

/-- Indentation is spacing. -/
theorem all_isSpacing {blanks : List Char} (h : blanks.all isIndent = true) :
    blanks.all isSpacing = true :=
  List.all_eq_true.mpr fun c hc => by rw [isSpacing, List.all_eq_true.mp h c hc, Bool.or_true]

/-- Spacing in front does not matter to what is left when spacing is skipped. -/
theorem skipSpacing_append {blanks : List Char} (h : blanks.all isSpacing = true)
    (cs : List Char) : skipSpacing (blanks ++ cs) = skipSpacing cs :=
  List.dropWhile_append_of_pos (List.all_eq_true.mp h)

/-- Nothing is skipped where there is no spacing. -/
theorem skipSpacing_cons {c : Char} (h : isSpacing c = false) (cs : List Char) :
    skipSpacing (c :: cs) = c :: cs := List.dropWhile_cons_of_neg (by simp [h])

/-- A new line is skipped up to its first character. -/
theorem skipSpacing_line {blanks : List Char} (h : blanks.all isIndent = true) {c : Char}
    (hc : isSpacing c = false) (cs : List Char) :
    skipSpacing ('\n' :: (blanks ++ c :: cs)) = c :: cs := by
  have hall : ('\n' :: blanks).all isSpacing = true := by
    rw [List.all_cons, all_isSpacing h]
    rfl
  rw [← List.cons_append, skipSpacing_append hall, skipSpacing_cons hc]

/-- A character of a word neither breaks nor indents lines. -/
theorem isSpacing_of_isWord {c : Char} (h : isWord c = true) : isSpacing c = false := by
  simp only [isSpacing, isIndent, Bool.or_eq_false_iff, beq_eq_false_iff_ne]
  refine ⟨?_, ?_, ?_⟩ <;>
  · rintro rfl
    exact absurd h (by decide)

/-- Takes off up to `n` items with a separator between them. -/
def readMany {α : Type} (separator : String) (item : Reader α) : Nat → Reader (List α)
  | 0, _ => none
  | n + 1, cs => do
    let (a, cs) ← item cs
    match token separator cs with
    | none => some ([a], cs)
    | some cs =>
      let (as, cs) ← readMany separator item n cs
      some (a :: as, cs)

/-- Items are taken off up to the last one, which no separator follows. -/
theorem reads_many {α β : Type} {separator : String} {item : Reader α}
    {follow follow' : Char → Bool} {f : β → List Char} {g : β → α} {n : Nat} {bs : List β}
    (hseparator : separator.toList.head?.any (fun c => follow c && !follow' c) = true)
    (hfollow : ∀ c, follow' c = true → follow c = true) (hne : bs ≠ []) (hn : bs.length ≤ n)
    (hitem : ∀ b ∈ bs, Reads item follow (f b) (g b)) :
    Reads (readMany separator item n) follow' (separator.toList.intercalate (bs.map f))
      (bs.map g) := by
  obtain ⟨c, cs, hcs, hc, hc'⟩ : ∃ c cs, separator.toList = c :: cs ∧ follow c = true ∧
      follow' c = false := by
    cases hcs : separator.toList with
    | nil =>
      rw [hcs] at hseparator
      cases hseparator
    | cons c cs =>
      rw [hcs] at hseparator
      exact ⟨c, cs, rfl, by simpa using hseparator⟩
  induction bs generalizing n with
  | nil => exact absurd rfl hne
  | cons b bs ih =>
    obtain ⟨n, rfl⟩ := Nat.exists_eq_add_of_le' (Nat.le_trans (Nat.succ_pos _) hn)
    rw [List.forall_mem_cons] at hitem
    intro rest hrest
    cases bs with
    | nil =>
      have hlast := hitem.1.mono hfollow rest hrest
      have hend : token separator rest = none :=
        token_eq_none (by rw [hcs, List.head?_cons, Option.any_some, hc', Bool.not_false]) hrest
      rw [List.map_singleton, List.intercalate_singleton, readMany, hlast]
      simp [hend]
    | cons b' bs =>
      have hfirst := hitem.1 (separator.toList ++
        (separator.toList.intercalate ((b' :: bs).map f) ++ rest)) (by
          rw [hcs, List.cons_append, List.head?_cons, Option.all_some, hc])
      have htail := ih (List.cons_ne_nil b' bs) (Nat.le_of_succ_le_succ hn) hitem.2 rest hrest
      have hchars : separator.toList.intercalate ((b :: b' :: bs).map f) =
          f b ++ separator.toList ++ separator.toList.intercalate ((b' :: bs).map f) :=
        List.intercalate_cons_cons
      rw [hchars, List.append_assoc, List.append_assoc, readMany, hfirst]
      simp only [Option.bind_eq_bind, Option.bind_some, token_append, htail]
      rfl

/-! ### Words and quoted texts -/

/-- Takes off a quoted text from behind its opening quote. -/
def readQuoted : Reader String := fun cs => do
  let (inner, cs) ← cutQuote cs
  let text ← unescape inner
  some (String.ofList text, cs)

/-- A quoted text is read back. -/
theorem readQuoted_escape (s : String) (rest : List Char) :
    readQuoted (s.toList.flatMap escape ++ '"' :: rest) = some (s, rest) := by
  rw [readQuoted, cutQuote_escape]
  simp [unescape_escape]

/-- Takes off a word. -/
def readWord : Reader String := fun cs =>
  match cs.takeWhile isWord with
  | [] => none
  | c :: word => some (String.ofList (c :: word), cs.dropWhile isWord)

/-- A word is read back if no part of a word follows. -/
theorem reads_word {s : String} (hne : s ≠ "") (hword : s.toList.all isWord = true) :
    Reads readWord (fun c => !isWord c) s.toList s := by
  intro rest hrest
  have hrest' : rest.takeWhile isWord = [] ∧ rest.dropWhile isWord = rest := by
    cases rest with
    | nil => exact ⟨rfl, rfl⟩
    | cons c rest =>
      have hc : ¬ isWord c = true := by simpa using hrest
      exact ⟨List.takeWhile_cons_of_neg hc, List.dropWhile_cons_of_neg hc⟩
  obtain ⟨c, cs, hcs⟩ := List.exists_cons_of_ne_nil (mt String.toList_eq_nil_iff.mp hne)
  rw [readWord, List.takeWhile_append_of_pos (List.all_eq_true.mp hword),
    List.dropWhile_append_of_pos (List.all_eq_true.mp hword), hrest'.1, hrest'.2, List.append_nil,
    hcs]
  dsimp only
  rw [← hcs, String.ofList_toList]

/-- Takes off the name of a field. -/
def readKey : Reader String
  | '"' :: cs => readQuoted cs
  | cs => readWord cs

/-- A property key starts neither like the end of its object nor with spacing. -/
theorem exists_propertyKey (name : String) : ∃ c cs, (propertyKey name).toList = c :: cs ∧
    c ≠ '\x7d' ∧ isSpacing c = false := by
  unfold propertyKey
  split
  · rename_i hname
    obtain ⟨c, cs, hcs, -, hword⟩ := exists_of_isIdentifier hname
    rw [hcs, List.all_cons, Bool.and_eq_true] at hword
    refine ⟨c, cs, hcs, ?_, isSpacing_of_isWord hword.1⟩
    rintro rfl
    exact absurd hword.1 (by decide)
  · exact ⟨'"', _, toList_quote name, by decide, by decide⟩

/-- The name of a field is read back, quoted or not. -/
theorem reads_key (name : String) :
    Reads readKey (fun c => !isWord c) (propertyKey name).toList name := by
  intro rest hrest
  unfold propertyKey
  split
  · rename_i hname
    obtain ⟨c, cs, hcs, -, hword⟩ := exists_of_isIdentifier hname
    have hne : name ≠ "" := by
      rintro rfl
      cases hcs
    have hread := reads_word hne hword rest hrest
    rw [hcs, List.cons_append] at hread ⊢
    rw [readKey, hread]
    -- A word does not start with a quote.
    rintro cs' heq
    cases heq
    rw [hcs, List.all_cons] at hword
    cases hword
  · rw [toList_quote, List.cons_append, List.append_assoc, List.singleton_append, readKey]
    exact readQuoted_escape name rest

/-- The type that is written as a word. -/
def wordType (word : String) : Expr :=
  match keyword? word with
  | some k => .keyword k
  | none =>
    if word.toList.head?.any isIdentifierStart then .parameter word
    else .literal (.number (wordNumber word.toList))

/-- The word of a keyword means the keyword. -/
theorem wordType_keyword (k : Keyword) : wordType k.word = .keyword k := by
  rw [wordType, keyword?_word]

/-- A name that is not reserved means the type parameter. -/
theorem wordType_name {name : String} (hname : isIdentifier name = true)
    (hreserved : isReserved name = false) : wordType name = .parameter name := by
  obtain ⟨c, cs, hcs, hstart, -⟩ := exists_of_isIdentifier hname
  have hhead : name.toList.head?.any isIdentifierStart = true := by
    rw [hcs, List.head?_cons, Option.any_some, hstart]
  rw [wordType, keyword?_of_not_reserved hreserved]
  exact if_pos hhead

/-- The digits of a number mean the number. -/
theorem wordType_number (n : Int) : wordType (toString n) = .literal (.number n) := by
  obtain ⟨c, cs, hcs, hstart, -⟩ := exists_of_number n
  have hhead : ¬ (toString n).toList.head?.any isIdentifierStart = true := by
    rw [hcs, List.head?_cons, Option.any_some, hstart]
    exact Bool.false_ne_true
  rw [wordType, keyword?_number]
  exact (if_neg hhead).trans (by rw [wordNumber_toString])

/-- The type that is written as a word before type arguments. -/
def wordApplied : String → List Expr → Expr
  | "Array", [element] => .array element
  | name, arguments => .genericReference 0 name arguments

/-- A name that is not reserved means the reference before type arguments. -/
theorem wordApplied_name {name : String} (hreserved : isReserved name = false)
    (arguments : List Expr) : wordApplied name arguments = .genericReference 0 name arguments := by
  unfold wordApplied
  split
  · exact absurd hreserved (by decide)
  · rfl

/-! ### Types -/

/-- Takes off a type that starts with a word. -/
def readNamed (n : Nat) (inner : Reader Expr) : Reader Expr := fun cs => do
  let (word, cs) ← readWord cs
  match token "<" cs with
  | none => some (wordType word, cs)
  | some cs =>
    let (arguments, cs) ← readMany ", " inner n cs
    let cs ← token ">" cs
    some (wordApplied word arguments, cs)

/-- Takes off what stands behind the key of an entry: whether it is optional, and its type. -/
def readEntry (inner : Reader Expr) : Reader (Bool × Expr) := fun cs => do
  let (optional, cs) := match token "?" cs with
    | none => (false, cs)
    | some cs => (true, cs)
  let cs ← token ": " cs
  let (type, cs) ← inner cs
  let cs ← token ";" cs
  some ((optional, type), cs)

/-- Takes off up to `n` fields and the closing brace. -/
def readFields (inner : Reader Expr) : Nat → Reader (List (Field Expr))
  | 0, _ => none
  | n + 1, cs =>
    match skipSpacing cs with
    | '\x7d' :: cs => some ([], cs)
    | cs => do
      let (name, cs) ← readKey cs
      let ((optional, type), cs) ← readEntry inner cs
      let (fields, cs) ← readFields inner n cs
      some (⟨name, type, optional, none⟩ :: fields, cs)

/-- Takes off the bracketed key of an entry, the entry and the closing brace. -/
def readKeyed (inner : Reader Expr) : Reader Expr := fun cs => do
  let cs ← token "[key" (skipSpacing cs)
  let (isMapped, cs) ← match token " in " cs with
    | none => (token ": " cs).map (false, ·)
    | some cs => some (true, cs)
  let (key, cs) ← inner cs
  let cs ← token "]" cs
  let ((optional, value), cs) ← readEntry inner cs
  let cs ← token "\x7d" (skipSpacing cs)
  some (if isMapped then .mapped key value optional else .index key value, cs)

/-- Takes off a type from behind its opening brace. -/
def readBraces (n : Nat) (inner : Reader Expr) : Reader Expr := fun cs =>
  match readFields inner n cs with
  | none => readKeyed inner cs
  | some (fields, cs) => some (.object fields, cs)

/-- Takes off a type that is neither a union nor written with brackets behind it. -/
def readAtom (n : Nat) (inner : Reader Expr) : Reader Expr
  | '"' :: cs => (readQuoted cs).map fun (value, cs) => (.literal (.text value), cs)
  | '\x7b' :: cs => readBraces n inner cs
  | cs => readNamed n inner cs

/-- Takes off a type that is no union. -/
def readPart (n : Nat) (inner : Reader Expr) : Reader Expr := fun cs => do
  let (e, cs) ← readAtom n inner cs
  match token "[]" cs with
  | none => some (e, cs)
  | some cs => some (.array e, cs)

/-- Takes off a type in which types are nested up to `n` times. -/
def readType : Nat → Reader Expr
  | 0, _ => none
  | n + 1, cs => do
    let (parts, cs) ← readMany " | " (readPart n (readType n)) (n + 1) cs
    some (Expr.joined parts, cs)

section

variable {n : Nat} {inner : Reader Expr}

/-- An entry is read up to its semicolon. -/
theorem readEntry_append {follow : Char → Bool} (hfollow : follow ';' = true) {cs : List Char}
    {e : Expr} (h : Reads inner follow cs e) (optional : Bool) (rest : List Char) :
    readEntry inner ((optionalMark optional).toList ++ (": ".toList ++ (cs ++ ';' :: rest))) =
      some ((optional, e), rest) := by
  have hsemicolon (rest : List Char) : token ";" (';' :: rest) = some rest := token_append ";" rest
  have htype := h (';' :: rest) hfollow
  cases optional with
  | false =>
    have hmark (cs : List Char) : token "?" (": ".toList ++ cs) = none := by
      simp [token, List.dropPrefix?]
    have hnone : (optionalMark false).toList = [] := by decide
    rw [hnone, List.nil_append, readEntry, hmark]
    simp only [Option.bind_eq_bind, Option.bind_some, token_append, htype, hsemicolon]
  | true =>
    have hsome : (optionalMark true).toList = "?".toList := by decide
    rw [hsome, readEntry, token_append]
    simp only [Option.bind_eq_bind, Option.bind_some, token_append, htype, hsemicolon]

/-- A bracketed key is not the name of a field. -/
theorem readFields_bracket {blanks : List Char} (hblanks : blanks.all isIndent = true)
    (cs : List Char) : readFields inner n ('\n' :: (blanks ++ ("[key".toList ++ cs))) = none := by
  have hopen : "[key".toList = '[' :: "key".toList := by decide
  cases n with
  | zero => rfl
  | succ n =>
    have hskip := skipSpacing_line hblanks (by decide : isSpacing '[' = false)
    have hword (cs : List Char) : readWord ('[' :: cs) = none := by
      rw [readWord, List.takeWhile_cons_of_neg (by decide)]
    rw [hopen, List.cons_append, readFields, hskip]
    simp [readKey, hword]

/-- A word does not start like a quoted text or an object. -/
theorem readAtom_word {s : String} (hne : s ≠ "") (hword : s.toList.all isWord = true)
    (rest : List Char) :
    readAtom n inner (s.toList ++ rest) = readNamed n inner (s.toList ++ rest) := by
  obtain ⟨c, cs, hcs⟩ := List.exists_cons_of_ne_nil (mt String.toList_eq_nil_iff.mp hne)
  rw [hcs, List.all_cons, Bool.and_eq_true] at hword
  rw [hcs, List.cons_append, readAtom]
  all_goals
    rintro _ heq
    cases heq
    exact absurd hword.1 (by decide)

end

/-- A type does not start with spacing. -/
theorem readType_of_isSpacing {c : Char} (h : isSpacing c = true) (n : Nat) (cs : List Char) :
    readType n (c :: cs) = none := by
  have hword : isWord c = false := by
    by_contra hword
    rw [isSpacing_of_isWord (by simpa using hword)] at h
    cases h
  have hread : readWord (c :: cs) = none := by
    rw [readWord, List.takeWhile_cons_of_neg (by simp [hword])]
  have hatom (n : Nat) (inner : Reader Expr) : readAtom n inner (c :: cs) = none := by
    rw [readAtom, readNamed, hread]
    · rfl
    · rintro cs' heq
      cases heq
      exact absurd h (by decide)
    · rintro cs' heq
      cases heq
      exact absurd h (by decide)
  cases n with
  | zero => rfl
  | succ n => simp [readType, readMany, readPart, hatom]

end Declgen.TypeScript
