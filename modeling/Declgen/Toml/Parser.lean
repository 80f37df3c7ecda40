import Declgen.Toml.Quoted
import Declgen.Toml.Scalar
import Declgen.Toml.Table

/-!
# Reading TOML

The reader accepts the TOML 1.1 documents whose arrays and tables between braces nest at most 80
levels deep and whose keys have at most 80 parts, with a byte order mark at the start or without.
Beyond that it accepts improper numbers, and line breaks around the equals signs of a table between
braces.
-/

namespace Declgen.Toml

open Text

/-- The text without the blanks at its start. -/
def skipSpace (cs : List Char) : List Char := cs.dropWhile isSpace

/-- The text without the comment that it may start with. -/
def skipComment : List Char → List Char
  | '#' :: rest => rest.dropWhile isPlain
  | cs => cs

/-- The text after the end of a line: blanks, a comment, and a line break or the end of all. -/
def afterLine? (cs : List Char) : Option (List Char) :=
  match skipComment (skipSpace cs) with
  | [] => some []
  | cs => afterBreak? cs

/-- The text without the blanks, comments and line breaks at its start. The fuel bounds the
number of line breaks. -/
def skipLines : Nat → List Char → List Char
  | 0, cs => cs
  | n + 1, cs =>
    match skipComment (skipSpace cs) with
    | [] => []
    | cs =>
      match afterBreak? cs with
      | some rest => skipLines n rest
      | none => cs

/-- The text without the blanks, comments and line breaks at its start. -/
def skipAll (cs : List Char) : List Char := skipLines cs.length cs

/-- Whether a character may stand in a key without quotes. -/
def isKeyChar (c : Char) : Bool := c.isAlphanum || c == '_' || c == '-'

/-- Reads one key. -/
def readKey : List Char → Reading String
  | [] => none
  | c :: rest =>
    if c = '"' || c = '\'' then
      (readShort (c :: rest)).map fun (cs, rest) => (String.ofList cs, rest)
    else if isKeyChar c then
      some (String.ofList ((c :: rest).takeWhile isKeyChar), (c :: rest).dropWhile isKeyChar)
    else none

/-- How deep arrays and tables may nest, and how many parts a key may have. -/
def depthLimit : Nat := 80

/-- Reads keys with dots between them, and the blanks around them, if there are at most as many
as the fuel. -/
def readKeys : Nat → List Char → Reading (List String)
  | 0, _ => none
  | n + 1, cs =>
    match readKey (skipSpace cs) with
    | none => none
    | some (key, rest) =>
      match skipSpace rest with
      | '.' :: rest => (readKeys n rest).map fun (keys, rest) => (key :: keys, rest)
      | rest => some ([key], rest)

/-- Reads an entry: keys, an equals sign and a value, with what `skip` skips around the equals
sign. -/
def readAssignment (skip : List Char → List Char) (value : List Char → Reading Value)
    (cs : List Char) : Reading (List String × Value) :=
  match readKeys depthLimit cs with
  | none => none
  | some (keys, rest) =>
    match skip rest with
    | '=' :: rest => (value (skip rest)).map fun (value, rest) => ((keys, value), rest)
    | _ => none

/-- Reads the items of an array up to its closing bracket. A comma may follow the last one. The
fuel bounds the number of items. -/
def readItems (value : List Char → Reading Value) : Nat → List Char → Reading (List Value)
  | 0, _ => none
  | n + 1, cs =>
    match skipAll cs with
    | ']' :: rest => some ([], rest)
    | cs =>
      match value cs with
      | none => none
      | some (item, rest) =>
        match skipAll rest with
        | ',' :: rest => (readItems value n rest).map fun (items, rest) => (item :: items, rest)
        | ']' :: rest => some ([item], rest)
        | _ => none

/-- Reads entries up to a closing brace. A comma may follow the last one. The fuel bounds the
number of entries. -/
def readInline (value : List Char → Reading Value) :
    Nat → List Char → Reading (List (List String × Value))
  | 0, _ => none
  | n + 1, cs =>
    match skipAll cs with
    | '\x7d' :: rest => some ([], rest)
    | cs =>
      match readAssignment skipAll value cs with
      | none => none
      | some (entry, rest) =>
        match skipAll rest with
        | ',' :: rest =>
          (readInline value n rest).map fun (entries, rest) => (entry :: entries, rest)
        | '\x7d' :: rest => some ([entry], rest)
        | _ => none

/-- Reads a table after its opening brace. -/
def readTable (value : List Char → Reading Value) (cs : List Char) : Reading Value :=
  match readInline value (cs.length + 1) cs with
  | none => none
  | some (assignments, rest) =>
    (assignAll assignments []).map fun entries => (.table .braces entries, rest)

/-- Reads a value that is neither an array nor a table. -/
def readSimple (cs : List Char) : Reading Value :=
  match cs with
  | '"' :: _ | '\'' :: _ => (readQuoted cs).map fun (cs, rest) => (.text (String.ofList cs), rest)
  | _ => readScalar cs

/-- Reads a value in which arrays and tables nest at most `depth` levels deep. -/
def readValue : Nat → List Char → Reading Value
  | 0, cs =>
    match cs with
    | '[' :: _ | '\x7b' :: _ => none
    | cs => readSimple cs
  | depth + 1, cs =>
    match cs with
    | '[' :: rest =>
      (readItems (readValue depth) (rest.length + 1) rest).map fun (items, rest) =>
        (.array items, rest)
    | '\x7b' :: rest => readTable (readValue depth) rest
    | cs => readSimple cs

/-- A line of a document, or several if a value takes them. -/
inductive Line where
  /-- Nothing, or a comment. -/
  | blank
  /-- A heading. -/
  | heading (heading : Heading)
  /-- An entry with its dotted keys. -/
  | assignment (keys : List String) (value : Value)

/-- Reads what stands on a line. -/
def readLineContent (cs : List Char) : Reading Line :=
  match skipSpace cs with
  | [] => some (.blank, [])
  | '[' :: '[' :: rest =>
    match readKeys depthLimit rest with
    | some (keys, ']' :: ']' :: rest) => some (.heading (.item keys), rest)
    | _ => none
  | '[' :: rest =>
    match readKeys depthLimit rest with
    | some (keys, ']' :: rest) => some (.heading (.table keys), rest)
    | _ => none
  | c :: rest =>
    if c = '#' || (afterBreak? (c :: rest)).isSome then some (.blank, c :: rest)
    else
      (readAssignment skipSpace (readValue depthLimit) (c :: rest)).map
        fun ((keys, value), rest) => (.assignment keys value, rest)

/-- Reads the lines of a document. The fuel bounds their number. -/
def readLines : Nat → List Char → Option (List Line)
  | 0, cs => if cs.isEmpty then some [] else none
  | n + 1, cs => do
    let (line, rest) ← readLineContent cs
    let rest ← afterLine? rest
    if rest.isEmpty then pure [line] else return line :: (← readLines n rest)

/-- The entries that stand before the next heading, and the sections that follow. -/
def sectionsOf : List Line → List (List String × Value) × List Section
  | [] => ([], [])
  | line :: lines =>
    let (assignments, sections) := sectionsOf lines
    match line with
    | .blank => (assignments, sections)
    | .assignment keys value => ((keys, value) :: assignments, sections)
    | .heading heading => ([], ⟨heading, assignments⟩ :: sections)

/-- The text without a byte order mark. -/
def dropMark : List Char → List Char
  | '\ufeff' :: cs => cs
  | cs => cs

/-- The entries of a document. -/
def parse? (s : String) : Option Entries := do
  let cs := dropMark s.toList
  let lines ← readLines cs.length cs
  let (assignments, sections) := sectionsOf lines
  (⟨.top, assignments⟩ :: sections).foldlM (fun document s => Section.addTo s document) []

end Declgen.Toml
