import Declgen.Text.Blank
import Declgen.Text.Bytes

/-!
# Places in a source text

A diagnostic points at a stretch of bytes of the manifest. The place of a key is found line by
line; the place of a value is where it stands between double quotes, the second time if there is
one.
-/

namespace Declgen.Manifest

open Text

/-- A stretch of bytes of a text. -/
structure Span where
  /-- The number of bytes before it. -/
  start : Nat
  /-- The number of its bytes. -/
  length : Nat
deriving DecidableEq

/-- The lines of a text with their ends. -/
def linesWithEnds : List Char → List (List Char)
  | [] => []
  | c :: rest =>
    if c = '\n' then [c] :: linesWithEnds rest
    else
      match linesWithEnds rest with
      | [] => [[c]]
      | line :: lines => (c :: line) :: lines

/-- Whether a key stands on a line after blanks, with an equals sign after it. -/
def startsWithKey (key line : List Char) : Bool :=
  match key.isPrefixOf? (trimStart line) with
  | some rest => (trimStart rest).head? = some '='
  | none => false

/-- The place of a key in lines that follow `offset` bytes. -/
def keySpanFrom (key : List Char) (offset : Nat) : List (List Char) → Option Span
  | [] => none
  | line :: lines =>
    if startsWithKey key line then
      some ⟨offset + byteLength (line.takeWhile isBlank), byteLength key⟩
    else keySpanFrom key (offset + byteLength line) lines

/-- The place of a key in a source text. -/
def keySpan (source key : String) : Option Span :=
  keySpanFrom key.toList 0 (linesWithEnds source.toList)

/-- What stands before and after the first place where a text contains a pattern. -/
def cut? (pattern : List Char) : List Char → Option (List Char × List Char)
  | [] => if pattern.isEmpty then some ([], []) else none
  | c :: rest =>
    match pattern.isPrefixOf? (c :: rest) with
    | some after => some ([], after)
    | none => (cut? pattern rest).map fun (before, after) => (c :: before, after)

/-- The place of a value between double quotes in a source text. -/
def valueSpan (source value : String) : Option Span :=
  let pattern := '"' :: value.toList ++ ['"']
  match cut? pattern source.toList with
  | none => none
  | some (before, after) =>
    let start := match cut? pattern after with
      | none => byteLength before
      | some (between, _) => byteLength before + byteLength pattern + byteLength between
    some ⟨start + 1, byteLength value.toList⟩

end Declgen.Manifest
