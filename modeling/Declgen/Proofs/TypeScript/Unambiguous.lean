import Declgen.Proofs.TypeScript.Reading
import Declgen.Proofs.TypeScript.Regular

/-!
# A type is told by its text

A regular type is read back from its text, at any depth of nesting and with any indentation. So two
regular types with the same text differ at most in the numbers of units and in whether a name refers
to a declaration or to a type parameter.
-/

namespace Declgen.TypeScript

open Layout Text

/-- What may follow a type that is neither a union nor written with brackets behind it. -/
def followsAtom (c : Char) : Bool := !isWord c && c != '<'

/-- What may follow a type that is no union. -/
def followsPart (c : Char) : Bool := followsAtom c && c != '['

/-- What may follow a type. -/
def followsType (c : Char) : Bool := followsPart c && c != ' '

/-- What may follow a type that is no union may follow a simpler one. -/
private theorem followsAtom_of_followsPart {c : Char} (h : followsPart c = true) :
    followsAtom c = true := by
  rw [followsPart, Bool.and_eq_true] at h
  exact h.1

/-- What may follow a type may follow one that is no union. -/
private theorem followsPart_of_followsType {c : Char} (h : followsType c = true) :
    followsPart c = true := by
  rw [followsType, Bool.and_eq_true] at h
  exact h.1

namespace Expr

/-- What an expression says if units have no numbers and a plain reference is the same as a type
parameter of its name. -/
def skeleton (e : Expr) : Expr :=
  e.rewrite ⟨.parameter, fun _ name => .parameter name, fun _ => .genericReference 0⟩

/-- What an expression adds to a text that stands `depth` levels deep. -/
def chars (unit : String) (depth : Nat) (e : Expr) : List Char := e.layout.chars unit depth

variable {unit : String} {n : Nat} {inner : Reader Expr}

/-- An expression is taken off a text by a reader of types, at any depth. -/
def ReadBy (unit : String) (inner : Reader Expr) (e : Expr) : Prop :=
  ∀ depth, Reads inner followsType (e.chars unit depth) e.skeleton

/-! ### Words -/

/-- A word adds itself to a text. -/
theorem chars_word {s : String} (hword : s.toList.all isWord = true) (depth : Nat) :
    (Passage.ofString s).chars unit depth = s.toList :=
  Passage.chars_ofString (code_of_all_isWord hword).notMem.1 depth

/-- A word is read as the type that it stands for. -/
theorem reads_wordType {s : String} (hne : s ≠ "") (hword : s.toList.all isWord = true)
    (depth : Nat) : Reads (readAtom n inner) followsAtom ((Passage.ofString s).chars unit depth)
      (wordType s) := by
  intro rest hrest
  have hread : readWord (s.toList ++ rest) = some (s, rest) :=
    (reads_word hne hword).mono (fun c hc => by simp_all [followsAtom]) rest hrest
  have hargs : token "<" rest = none := token_eq_none (by decide) hrest
  rw [chars_word hword, readAtom_word hne hword, readNamed, hread]
  simp [hargs]

/-- A word applied to types adds the word and the types between angle brackets. -/
theorem chars_applied {s : String} (hword : s.toList.all isWord = true) (es : List Expr)
    (depth : Nat) : (Passage.ofString (s ++ "<") ++ Passage.join ", " (es.map layout) ++
        Passage.ofString ">").chars unit depth =
      s.toList ++ '<' :: (", ".toList.intercalate (es.map (chars unit depth)) ++ ['>']) := by
  have hopen : (Passage.ofString (s ++ "<")).chars unit depth = s.toList ++ ['<'] := by
    rw [Passage.chars_ofString, String.toList_append]
    · rfl
    · rw [String.toList_append, List.mem_append, not_or]
      exact ⟨(code_of_all_isWord hword).notMem.1, by decide⟩
  have hclose : (Passage.ofString ">").chars unit depth = ['>'] :=
    Passage.chars_ofString (by decide) depth
  rw [Passage.chars_append, Passage.chars_append, hopen, hclose, Passage.chars_join (by decide),
    List.map_map, List.append_assoc, List.append_assoc]
  rfl

/-- A word with types between angle brackets is read as the word applied to the types. -/
theorem reads_applied {s : String} (hne : s ≠ "") (hword : s.toList.all isWord = true)
    {es : List Expr} (hes : es ≠ []) (hn : es.length ≤ n) (hread : ∀ e ∈ es, e.ReadBy unit inner)
    (depth : Nat) : Reads (readAtom n inner) followsAtom
      ((Passage.ofString (s ++ "<") ++ Passage.join ", " (es.map layout) ++
        Passage.ofString ">").chars unit depth) (wordApplied s (es.map skeleton)) := by
  have hclose : ∀ c, (c == '>') = true → followsType c = true := by
    intro c hc
    rw [beq_iff_eq.mp hc]
    decide
  have hmany : Reads (readMany ", " inner n) (fun c => c == '>')
      (", ".toList.intercalate (es.map (chars unit depth))) (es.map skeleton) :=
    reads_many (by decide) hclose hes hn fun e he => hread e he depth
  intro rest _
  have hopen := reads_word hne hword ('<' :: (", ".toList.intercalate (es.map (chars unit depth)) ++
    '>' :: rest)) rfl
  have harguments := hmany ('>' :: rest) rfl
  have hless (cs : List Char) : token "<" ('<' :: cs) = some cs := token_append "<" cs
  have hgreater : token ">" ('>' :: rest) = some rest := token_append ">" rest
  rw [chars_applied hword, List.append_assoc, List.cons_append, List.append_assoc,
    List.singleton_append, readAtom_word hne hword, readNamed, hopen]
  simp only [Option.bind_eq_bind, Option.bind_some, hless, harguments, hgreater]

/-! ### Entries between braces -/

/-- What an entry adds to a text. -/
theorem exists_entry (hunit : unit.toList.all isIndent = true) (depth : Nat)
    {ks ts us : List String} {before between : String} {key key' type type' : Passage}
    (hbefore : Code ks before.toList) (hkey : key.Documented ts key')
    (hbetween : Code [] between.toList) (htype : type.Documented us type') :
    ∃ blanks : List Char, blanks.all isIndent = true ∧
      belowChars unit depth (entryLines before key between type) =
        '\n' :: (blanks ++ (before.toList ++ (key.chars unit depth ++ (between.toList ++
          (type.chars unit depth ++ [';']))))) := by
  have hparts := (((Passage.Documented.ofString hbefore).append hkey).append
    (.ofString hbetween)).append htype
  have hlines := hparts.complete_semicolon
  have hsemicolon : (Passage.ofString ";").chars unit depth = [';'] :=
    Passage.chars_ofString (by decide) depth
  obtain ⟨blanks, hblanks, hchars⟩ := exists_belowChars hunit depth
    (toLines_semicolon_ne_nil (Passage.ofString before ++ key ++ Passage.ofString between ++ type))
  refine ⟨blanks, hblanks, ?_⟩
  rw [entryLines, hchars, hlines, ← Passage.chars, Passage.chars_append, Passage.chars_append,
    Passage.chars_append, Passage.chars_append, Passage.chars_ofString hbefore.notMem.1,
    Passage.chars_ofString hbetween.notMem.1, hsemicolon]
  simp only [List.append_assoc]

/-- The line of a field that has no documentation. -/
theorem exists_fieldEntry (hunit : unit.toList.all isIndent = true) (depth : Nat) {f : Field Expr}
    (htype : f.type.Documented) : ∃ blanks : List Char, blanks.all isIndent = true ∧
      belowChars unit depth (entryLines (propertyKey f.name ++ optionalMark f.optional)
          (Passage.ofString "") ": " f.type.layout) =
        '\n' :: (blanks ++ ((propertyKey f.name).toList ++ ((optionalMark f.optional).toList ++
          (": ".toList ++ (f.type.chars unit depth ++ [';']))))) := by
  have hcode : Code [] "".toList := .nil
  have hcolon : Code [] ": ".toList := .of_all (by decide)
  obtain ⟨blanks, hblanks, hchars⟩ :=
    exists_entry hunit depth (code_fieldKey f.name f.optional) (.ofString hcode) hcolon htype
  have hnone : (Passage.ofString "").chars unit depth = [] :=
    Passage.chars_ofString (by decide) depth
  refine ⟨blanks, hblanks, ?_⟩
  rw [hchars, hnone, List.nil_append, String.toList_append, List.append_assoc]
  rfl

/-- Fields are read up to the closing brace. -/
theorem readFields_append (hunit : unit.toList.all isIndent = true) (depth : Nat)
    {fields : List (Field Expr)} (hn : fields.length < n)
    (hread : ∀ f ∈ fields, f.type.ReadBy unit inner)
    (hdocs : ∀ f ∈ fields, f.doc = none) (htypes : ∀ f ∈ fields, f.type.Documented)
    {blanks : List Char} (hblanks : blanks.all isIndent = true) (rest : List Char) :
    readFields inner n
        (belowChars unit depth (layoutFields fields) ++ '\n' :: (blanks ++ '\x7d' :: rest)) =
      some (fields.map fun f => ⟨f.name, f.type.skeleton, f.optional, f.doc⟩, rest) := by
  induction fields generalizing n with
  | nil =>
    obtain ⟨n, rfl⟩ := Nat.exists_eq_add_one_of_ne_zero (Nat.ne_zero_of_lt hn)
    have hskip := skipSpacing_line hblanks (by decide : isSpacing '\x7d' = false) rest
    rw [layoutFields, readFields]
    simp [belowChars, hskip]
  | cons f fields ih =>
    obtain ⟨n, rfl⟩ := Nat.exists_eq_add_one_of_ne_zero (Nat.ne_zero_of_lt hn)
    rw [List.forall_mem_cons] at hread hdocs htypes
    obtain ⟨blanks', hblanks', hline⟩ := exists_fieldEntry hunit depth htypes.1
    obtain ⟨c, cs, hcs, hbrace, hspacing⟩ := exists_propertyKey f.name
    have htail := ih (by simpa using hn) hread.2 hdocs.2 htypes.2
    -- The first line is skipped up to the key.
    generalize hmore : '\n' :: (blanks ++ '\x7d' :: rest) = more at htail ⊢
    have hchars : belowChars unit depth (layoutFields (f :: fields)) ++ more =
        '\n' :: (blanks' ++ ((propertyKey f.name).toList ++ ((optionalMark f.optional).toList ++
          (": ".toList ++ (f.type.chars unit depth ++
            ';' :: (belowChars unit depth (layoutFields fields) ++ more)))))) := by
      rw [layoutFields, hdocs.1, docLines, List.nil_append, belowChars_append, hline]
      simp only [List.cons_append, List.append_assoc, List.nil_append]
    have hskip (cs' : List Char) : skipSpacing ('\n' :: (blanks' ++
        ((propertyKey f.name).toList ++ cs'))) = (propertyKey f.name).toList ++ cs' := by
      rw [hcs, List.cons_append, skipSpacing_line hblanks' hspacing]
    have hkey := reads_key f.name ((optionalMark f.optional).toList ++ (": ".toList ++
      (f.type.chars unit depth ++ ';' :: (belowChars unit depth (layoutFields fields) ++ more))))
      (by cases f.optional <;> rfl)
    have hentry := readEntry_append (by decide) (hread.1 depth) f.optional
      (belowChars unit depth (layoutFields fields) ++ more)
    rw [hchars, readFields, hskip]
    split
    · rename_i _ heq
      rw [hcs] at heq
      cases heq
      exact absurd rfl hbrace
    · rw [hkey]
      simp only [Option.bind_eq_bind, Option.bind_some, hentry, htail, List.map_cons, hdocs.1]

/-- What stands behind the bracket of a key. -/
def keyMark (isMapped : Bool) : String := if isMapped then " in " else ": "

/-- The bracketed key of an entry, the entry and the closing brace are read. -/
theorem readKeyed_append {ks vs : List Char} {key value : Expr}
    (hkey : Reads inner followsType ks key) (hvalue : Reads inner followsType vs value)
    (isMapped optional : Bool) {blanks blanks' : List Char} (hblanks : blanks.all isIndent = true)
    (hblanks' : blanks'.all isIndent = true) (rest : List Char) :
    readKeyed inner ('\n' :: (blanks ++ ("[key".toList ++ ((keyMark isMapped).toList ++ (ks ++
        ']' :: ((optionalMark optional).toList ++ (": ".toList ++ (vs ++
          ';' :: '\n' :: (blanks' ++ '\x7d' :: rest))))))))) =
      some (if isMapped then .mapped key value optional else .index key value, rest) := by
  have hopen : "[key".toList = '[' :: "key".toList := by decide
  have hclose (cs : List Char) : token "]" (']' :: cs) = some cs := token_append "]" cs
  have hbrace : token "\x7d" ('\x7d' :: rest) = some rest := token_append "\x7d" rest
  have hskip (cs : List Char) : skipSpacing ('\n' :: (blanks ++ ("[key".toList ++ cs))) =
      "[key".toList ++ cs := by
    rw [hopen, List.cons_append, skipSpacing_line hblanks (by decide)]
  have hskip' : skipSpacing ('\n' :: (blanks' ++ '\x7d' :: rest)) = '\x7d' :: rest :=
    skipSpacing_line hblanks' (by decide) rest
  have hentry := readEntry_append (by decide) hvalue optional
    ('\n' :: (blanks' ++ '\x7d' :: rest))
  have hbracket := hkey (']' :: ((optionalMark optional).toList ++ (": ".toList ++ (vs ++
    ';' :: '\n' :: (blanks' ++ '\x7d' :: rest))))) rfl
  rw [readKeyed, hskip]
  cases isMapped with
  | false =>
    have hmark (cs : List Char) : token " in " (": ".toList ++ cs) = none := by
      simp [token, List.dropPrefix?]
    have hcolon : keyMark false = ": " := rfl
    simp only [hcolon, hmark, Option.bind_eq_bind, Option.bind_some, Option.map_some, token_append,
      hbracket, hclose, hentry, hskip', hbrace]
  | true =>
    have hin : keyMark true = " in " := rfl
    simp only [hin, Option.bind_eq_bind, Option.bind_some, token_append, hbracket, hclose, hentry,
      hskip', hbrace]

/-- An entry with a bracketed key between braces is read. -/
theorem reads_keyed (hunit : unit.toList.all isIndent = true) {key value : Expr}
    (hkey : key.ReadBy unit inner) (hvalue : value.ReadBy unit inner) (hkey' : key.Documented)
    (hvalue' : value.Documented) (isMapped optional : Bool) (depth : Nat) :
    Reads (readAtom n inner) followsAtom
      ((Passage.braced (entryLines ("[key" ++ keyMark isMapped) key.layout
        ("]" ++ optionalMark optional ++ ": ") value.layout)).chars unit depth)
      (if isMapped then .mapped key.skeleton value.skeleton optional
        else .index key.skeleton value.skeleton) := by
  have hbefore : Code [] ("[key" ++ keyMark isMapped).toList := by
    cases isMapped <;> exact .of_all (by decide)
  have hbetween : Code [] ("]" ++ optionalMark optional ++ ": ").toList := by
    cases optional <;> exact .of_all (by decide)
  obtain ⟨blanks, hblanks, hchars⟩ :=
    exists_entry hunit (depth + 1) hbefore hkey' hbetween hvalue'
  intro rest _
  have hread := readKeyed_append (hkey (depth + 1)) (hvalue (depth + 1)) isMapped optional hblanks
    (all_isIndent_copies hunit depth) rest
  have hclose : "]".toList = [']'] := by decide
  rw [Passage.chars_braced, hchars]
  simp only [String.toList_append, hclose, List.append_assoc, List.cons_append, List.nil_append]
  rw [readAtom, readBraces, readFields_bracket hblanks]
  exact hread

/-! ### Types -/

/-- The skeleton of an applied reference has the skeletons of the arguments. -/
theorem skeleton_genericReference (u : UnitId) (name : String) (arguments : List Expr) :
    (genericReference u name arguments).skeleton =
      .genericReference 0 name (arguments.map skeleton) := by
  rw [skeleton, rewrite, rewriteList_eq_map]
  rfl

/-- The skeleton of a union has the skeletons of the members. -/
private theorem skeleton_union (members : List Expr) :
    (union members).skeleton = .union (members.map skeleton) := by
  rw [skeleton, rewrite, rewriteList_eq_map]
  rfl

/-- The skeleton of an object has the skeletons of the types. -/
private theorem skeleton_object (fields : List (Field Expr)) : (object fields).skeleton =
    .object (fields.map fun f => ⟨f.name, f.type.skeleton, f.optional, f.doc⟩) := by
  rw [skeleton, rewrite, rewriteFields_eq_map]
  rfl

/-- A quoted text is read as the type of this text. -/
theorem reads_text (s : String) (depth : Nat) : Reads (readAtom n inner) followsAtom
    ((Passage.ofString (quote s)).chars unit depth) (.literal (.text s)) := by
  intro rest _
  rw [Passage.chars_ofString (Code.quote_single s).notMem.1, toList_quote, List.cons_append,
    List.append_assoc, List.singleton_append, readAtom, readQuoted_escape]
  rfl

/-- An object type is read field by field. -/
theorem reads_object (hunit : unit.toList.all isIndent = true) {fields : List (Field Expr)}
    (hn : fields.length < n) (hread : ∀ f ∈ fields, f.type.ReadBy unit inner)
    (hdocs : ∀ f ∈ fields, f.doc = none) (htypes : ∀ f ∈ fields, f.type.Documented) (depth : Nat) :
    Reads (readAtom n inner) followsAtom ((object fields).chars unit depth)
      (object fields).skeleton := by
  intro rest _
  rw [skeleton_object]
  by_cases hfields : fields = []
  · subst hfields
    obtain ⟨n, rfl⟩ := Nat.exists_eq_add_one_of_ne_zero (Nat.ne_zero_of_lt hn)
    have hbraces : (Passage.ofString "\x7b\x7d").chars unit depth = ['\x7b', '\x7d'] :=
      Passage.chars_ofString (by decide) depth
    have hclose : skipSpacing ('\x7d' :: rest) = '\x7d' :: rest := skipSpacing_cons (by decide) rest
    rw [chars, layout, hbraces, List.cons_append, readAtom, readBraces]
    simp [readFields, hclose]
  · have hall := readFields_append hunit (depth + 1) hn hread hdocs htypes
      (all_isIndent_copies hunit depth) rest
    rw [chars, layout_object hfields, Passage.chars_braced, List.cons_append, List.append_assoc,
      List.cons_append, List.append_assoc, List.singleton_append, readAtom, readBraces, hall]

/-- A name is a word. -/
theorem isWord_name {name : String} (h : isIdentifier name = true) :
    name ≠ "" ∧ name.toList.all isWord = true := by
  refine ⟨?_, all_isWord_of_isIdentifier h⟩
  rintro rfl
  exact absurd h (by decide)

/-- A name that is not reserved is read as a type parameter. -/
theorem reads_name {name : String} (h : isIdentifier name = true ∧ isReserved name = false)
    (depth : Nat) : Reads (readAtom n inner) followsAtom
      ((Passage.ofString name).chars unit depth) (.parameter name) := by
  rw [← wordType_name h.1 h.2]
  exact reads_wordType (isWord_name h.1).1 (isWord_name h.1).2 depth

/-- A type is read by its first character, unless it is a union or written with brackets behind
it. -/
theorem reads_atom (hunit : unit.toList.all isIndent = true) {e : Expr} (he : e.Regular)
    (hn : sizeOf e ≤ n + 1) (hread : ∀ part ∈ e.parts, part.ReadBy unit inner)
    (hunion : e.isUnion = false) (harray : ∀ element, e = .array element → element.isSimple = false)
    (depth : Nat) : Reads (readAtom n inner) followsAtom (e.chars unit depth) e.skeleton := by
  have hdocs {part : Expr} (h : part ∈ e.parts) : part.Documented := (he.of_mem_parts h).documented
  cases e with
  | keyword k =>
    have hne : k.word ≠ "" := by cases k <;> decide
    have hword := all_isWord_keyword k
    rw [chars, layout, skeleton, rewrite, ← wordType_keyword k]
    exact reads_wordType hne hword depth
  | literal value =>
    cases value with
    | number m =>
      obtain ⟨c, cs, hcs, -, hword⟩ := exists_of_number m
      have hne : toString m ≠ "" := by
        intro heq
        rw [heq] at hcs
        cases hcs
      rw [chars, layout, Literal.toText, skeleton, rewrite, ← wordType_number m]
      exact reads_wordType hne hword depth
    | text s => exact reads_text s depth
  | verbatim text => exact he.self.elim
  | reference u name => exact reads_name he.self depth
  | genericReference u name arguments =>
    obtain ⟨hname, hne⟩ : (isIdentifier name = true ∧ isReserved name = false) ∧ arguments ≠ [] :=
      he.self
    have hlength : arguments.length ≤ n := by
      have := length_lt_sizeOf arguments
      rw [genericReference.sizeOf_spec] at hn
      omega
    rw [chars, layout, layoutList_eq_map, skeleton_genericReference, ← wordApplied_name hname.2]
    exact reads_applied (isWord_name hname.1).1 (isWord_name hname.1).2 hne hlength hread depth
  | parameter name => exact reads_name he.self depth
  | array element =>
    have hone : [element].length ≤ n := by
      have := element.sizeOf_pos
      rw [array.sizeOf_spec] at hn
      simp only [List.length_singleton]
      omega
    have hnotSimple : ¬ element.isSimple = true := by simp [harray element rfl]
    rw [chars, layout, if_neg hnotSimple]
    exact reads_applied (s := "Array") (by decide) (by decide) (List.cons_ne_nil _ _) hone hread
      depth
  | union members => cases hunion
  | object fields =>
    have hlength : fields.length < n := by
      have := length_lt_sizeOf fields
      rw [object.sizeOf_spec] at hn
      omega
    exact reads_object hunit hlength (fun f hf => hread _ (List.mem_map_of_mem hf)) he.self
      (fun f hf => hdocs (List.mem_map_of_mem hf)) depth
  | index key value =>
    have hkey : key ∈ (index key value).parts := by simp [parts]
    have hvalue : value ∈ (index key value).parts := by simp [parts]
    exact reads_keyed hunit (hread key hkey) (hread value hvalue) (hdocs hkey) (hdocs hvalue) false
      false depth
  | mapped key value optional =>
    have hkey : key ∈ (mapped key value optional).parts := by simp [parts]
    have hvalue : value ∈ (mapped key value optional).parts := by simp [parts]
    exact reads_keyed hunit (hread key hkey) (hread value hvalue) (hdocs hkey) (hdocs hvalue) true
      optional depth

/-- A type that is no union is read. -/
theorem reads_part (hunit : unit.toList.all isIndent = true)
    (hinner : ∀ e : Expr, sizeOf e ≤ n → e.Regular → e.ReadBy unit inner) {e : Expr}
    (he : e.Regular) (hn : sizeOf e ≤ n + 1) (hunion : e.isUnion = false) (depth : Nat) :
    Reads (readPart n inner) followsPart (e.chars unit depth) e.skeleton := by
  have hatom {e : Expr} (he : e.Regular) (hn : sizeOf e ≤ n + 1) (hunion : e.isUnion = false)
      (harray : ∀ element, e = .array element → element.isSimple = false) :
      Reads (readAtom n inner) followsAtom (e.chars unit depth) e.skeleton :=
    reads_atom hunit he hn (fun part hpart => hinner part
      (Nat.le_of_lt_succ (Nat.lt_of_lt_of_le (sizeOf_lt_of_mem_parts hpart) hn))
      (he.of_mem_parts hpart)) hunion harray depth
  intro rest hrest
  by_cases hsimple : ∃ element, e = .array element ∧ element.isSimple = true
  · obtain ⟨element, rfl, hsimple⟩ := hsimple
    have hmem : element ∈ (array element).parts := List.mem_singleton_self element
    have hsize := sizeOf_lt_of_mem_parts hmem
    have hunion : element.isUnion = false := by
      cases element with
      | union members => cases hsimple
      | _ => rfl
    have hnested : ∀ inner, element = .array inner → inner.isSimple = false := by
      rintro _ rfl
      cases hsimple
    have hread := hatom (he.of_mem_parts hmem) (by omega) hunion hnested ("[]".toList ++ rest) rfl
    have hbrackets : (Passage.ofString "[]").chars unit depth = "[]".toList :=
      Passage.chars_ofString (by decide) depth
    rw [chars, layout, if_pos hsimple, Passage.chars_append, hbrackets, List.append_assoc, ← chars,
      readPart, hread]
    simp only [Option.bind_eq_bind, Option.bind_some, token_append]
    rfl
  · have hread := hatom he hn hunion (fun element heq => by
      rw [← Bool.not_eq_true]
      exact fun h => hsimple ⟨element, heq, h⟩)
    have hnone : token "[]" rest = none := token_eq_none (by decide) hrest
    rw [readPart, hread.mono (fun _ => followsAtom_of_followsPart) rest hrest]
    simp [hnone]

/-- Types that are no unions are read one after the other. -/
theorem reads_parts (hunit : unit.toList.all isIndent = true)
    (hinner : ∀ e : Expr, sizeOf e ≤ n → e.Regular → e.ReadBy unit inner) {es : List Expr}
    (hne : es ≠ []) (hlength : es.length ≤ n + 1)
    (hes : ∀ e ∈ es, e.Regular ∧ sizeOf e ≤ n + 1 ∧ e.isUnion = false) (depth : Nat) :
    Reads (readMany " | " (readPart n inner) (n + 1)) followsType
      (" | ".toList.intercalate (es.map (chars unit depth))) (es.map skeleton) := by
  refine reads_many (by decide) (fun _ => followsPart_of_followsType) hne hlength fun e he => ?_
  obtain ⟨hregular, hsize, hunion⟩ := hes e he
  exact reads_part hunit hinner hregular hsize hunion depth

/-- A regular union adds its members. -/
theorem chars_union {members : List Expr} (h : (union members).Regular) (depth : Nat) :
    (union members).chars unit depth =
      " | ".toList.intercalate (members.map (chars unit depth)) := by
  have hnodup : members.Nodup := h.self.2.1
  rw [chars, layout_union, h.leaves_eq, eraseDups_of_nodup hnodup, Passage.chars_join (by decide),
    List.map_map]
  rfl

/-- Two types and more are joined by a union. -/
theorem joined_eq_union {es : List Expr} (h : 2 ≤ es.length) : joined es = .union es := by
  unfold joined
  split
  · exact absurd h (by simp)
  · rfl

/-- A union is read as its members, and any other type as the type itself. -/
theorem reads_type (hunit : unit.toList.all isIndent = true) {e : Expr} (hn : sizeOf e ≤ n)
    (he : e.Regular) : e.ReadBy unit (readType n) := by
  induction n generalizing e with
  | zero => exact absurd e.sizeOf_pos (by omega)
  | succ n ih =>
    intro depth rest hrest
    cases hunion : e.isUnion with
    | false =>
      have hone := reads_parts hunit (fun _ => ih) (List.cons_ne_nil e []) (by simp)
        (List.forall_mem_singleton.mpr ⟨he, hn, hunion⟩) depth rest hrest
      rw [List.map_singleton, List.intercalate_singleton] at hone
      rw [readType, hone]
      rfl
    | true =>
      cases e with
      | union members =>
        have hshape : 2 ≤ members.length := he.self.1
        have hlength : members.length ≤ n + 1 := by
          have := length_lt_sizeOf members
          rw [union.sizeOf_spec] at hn
          omega
        have hmembers : ∀ member ∈ members, member.Regular ∧ sizeOf member ≤ n + 1 ∧
            member.isUnion = false := fun member hmember =>
          have hsize : sizeOf member < sizeOf (union members) := sizeOf_lt_of_mem_parts hmember
          ⟨he.of_mem_parts hmember, by omega, he.self.2.2 member hmember⟩
        have hall := reads_parts hunit (fun _ => ih) (List.ne_nil_of_length_pos (by omega)) hlength
          hmembers depth rest hrest
        have hjoined : joined (members.map skeleton) = .union (members.map skeleton) :=
          joined_eq_union (by rwa [List.length_map])
        rw [chars_union he, skeleton_union, ← hjoined, readType, hall]
        rfl
      | _ => cases hunion

/-- The text of a regular type is read as what the type says. -/
theorem readType_toText (indent : Indent) {e : Expr} (hn : sizeOf e ≤ n) (he : e.Regular) :
    readType n (skipSpacing (e.toText indent).toList) = some (e.skeleton, []) := by
  have hunit := all_isIndent_unit indent
  obtain ⟨blanks, hblanks, htext⟩ := Passage.exists_toText hunit e.layout
  have hread : readType n (e.chars indent.unit 0) = some (e.skeleton, []) := by
    have := reads_type hunit hn he 0 [] rfl
    rwa [List.append_nil] at this
  rw [toText, htext, ← chars, skipSpacing_append (all_isSpacing hblanks)]
  cases hchars : e.chars indent.unit 0 with
  | nil =>
    rw [hchars] at hread
    exact hread
  | cons c cs =>
    rw [hchars] at hread
    have hc : isSpacing c = false := by
      by_contra hc
      rw [readType_of_isSpacing (by simpa using hc)] at hread
      cases hread
    rw [skipSpacing_cons hc, hread]

/-- Regular types with the same text say the same. -/
theorem skeleton_eq_of_toText_eq (indent : Indent) {e f : Expr} (he : e.Regular) (hf : f.Regular)
    (h : e.toText indent = f.toText indent) : e.skeleton = f.skeleton := by
  have hread := readType_toText indent (Nat.le_max_left (sizeOf e) (sizeOf f)) he
  rw [h, readType_toText indent (Nat.le_max_right (sizeOf e) (sizeOf f)) hf] at hread
  exact (congrArg Prod.fst (Option.some.inj hread)).symm

/-- An array in which `null` and an object are nested. The object has quoted keys and another one
within it, and `u` and `user` are the unit and the argument of a reference. -/
def pages (u : UnitId) (user : Expr) : Expr :=
  .array (.union [.keyword .null, .object [
    ⟨"user names", .index (.keyword .string) (.array (.literal (.text "\n"))), false, none⟩,
    ⟨"pages", .array (.genericReference u "Page" [user]), true, none⟩]])

/-- The general theorem at two of these pages. -/
theorem skeleton_eq_pages : (pages 1 (.reference 0 "User")).Regular ∧
    (pages 2 (.parameter "User")).Regular ∧
    (pages 1 (.reference 0 "User")).toText .tab = (pages 2 (.parameter "User")).toText .tab ∧
    (pages 1 (.reference 0 "User")).skeleton = (pages 2 (.parameter "User")).skeleton := by
  have he : (pages 1 (.reference 0 "User")).Regular := by decide
  have hf : (pages 2 (.parameter "User")).Regular := by decide
  have htext : (pages 1 (.reference 0 "User")).toText .tab =
      (pages 2 (.parameter "User")).toText .tab := by decide +kernel
  exact ⟨he, hf, htext, skeleton_eq_of_toText_eq .tab he hf htext⟩

end Expr

end Declgen.TypeScript
