import Declgen.Toml.Value

/-!
# Building tables

A document gives its entries one by one and in sections. No key may be given twice, a table may
have one heading only, and dotted keys may only add to tables that dotted keys made, though they
may lead there through tables that headings made.
-/

namespace Declgen.Toml

/-- Changes the value of a key, or refuses to. A new key comes last. -/
def alter (key : String) (change : Option Value → Option Value) : Entries → Option Entries
  | [] => (change none).map fun value => [(key, value)]
  | (other, old) :: entries =>
    if other = key then (change (some old)).map fun value => (other, value) :: entries
    else (alter key change entries).map fun entries => (other, old) :: entries

/-- Whether dotted keys may lead through a table to a table inside it, or if `last` holds, may
add an entry to it. -/
def Origin.admitsDotted (last : Bool) : Origin → Bool
  | dotted => true
  | passage => !last
  | heading | braces => false

/-- Adds an entry under dotted keys. Through tables with a double heading they lead to the last
one, to which itself they may add nothing. -/
def assign (value : Value) : List String → Entries → Option Entries
  | [], _ => none
  | [key], entries => alter key (fun old => if old.isNone then some value else none) entries
  | key :: keys, entries =>
    alter key (fun
      | none => (assign value keys []).map (.table .dotted)
      | some (.table origin inner) =>
        if origin.admitsDotted (keys.length = 1) then
          (assign value keys inner).map (.table origin)
        else none
      | some (.sections (last :: others)) =>
        if keys.length = 1 then none
        else (assign value keys last).map fun last => .sections (last :: others)
      | _ => none) entries

/-- Adds entries in order. -/
def assignAll (assignments : List (List String × Value)) (entries : Entries) : Option Entries :=
  assignments.foldlM (fun entries (keys, value) => assign value keys entries) entries

/-- Changes the value that the keys of a heading lead to. Of tables with a double heading they
lead to the last one. -/
def alterAt (change : Option Value → Option Value) : List String → Entries → Option Entries
  | [], _ => none
  | [key], entries => alter key change entries
  | key :: keys, entries =>
    alter key (fun
      | none => (alterAt change keys []).map (.table .passage)
      | some (.table .braces _) => none
      | some (.table origin inner) => (alterAt change keys inner).map (.table origin)
      | some (.sections (last :: others)) =>
        (alterAt change keys last).map fun last => .sections (last :: others)
      | _ => none) entries

/-- What stands above the entries of a section. -/
inductive Heading where
  /-- Nothing, at the start of a document. -/
  | top
  /-- The heading of a table. -/
  | table (keys : List String)
  /-- The double heading of one of several tables. -/
  | item (keys : List String)
deriving DecidableEq

/-- A part of a document under one heading. -/
structure Section where
  /-- The heading. -/
  heading : Heading
  /-- The entries, each with its dotted keys. -/
  assignments : List (List String × Value)

/-- Adds a section to a document. -/
def Section.addTo (s : Section) (document : Entries) : Option Entries :=
  match s.heading with
  | .top => assignAll s.assignments document
  | .table keys =>
    alterAt (fun
      | none => (assignAll s.assignments []).map (.table .heading)
      | some (.table .passage inner) => (assignAll s.assignments inner).map (.table .heading)
      | _ => none) keys document
  | .item keys =>
    alterAt (fun
      | none => (assignAll s.assignments []).map fun table => .sections [table]
      | some (.sections tables) =>
        (assignAll s.assignments []).map fun table => .sections (table :: tables)
      | _ => none) keys document

end Declgen.Toml
