import Declgen.Proofs.Document.Names
import Declgen.Proofs.Walk.Documents

/-!
# Instantiations that share a unit

Two instantiations of a record share their unit exactly if the identities of their arguments, with
commas between them, are the same text. In a readable document this means that the arguments are
the same types. Elsewhere different arguments may share a unit without an error, for example a
primitive type and an enumeration with its name.
-/

namespace Declgen.Walk

open Model Document TypeScript Declgen.Units

section Sharing

variable {g : Graph} {id id' definition : Nat} {arguments arguments' : List TypeId}

/-- The arguments of a type of a well-formed graph have their identities. -/
theorem mapM_identity (hg : g.WellFormed)
    (hget : g.get id = .ok (.instantiation definition arguments)) :
    arguments.mapM (identity g) = .ok ((arguments.map g.tree).map TypeTree.spelling) := by
  rw [List.map_map]
  refine mapM_eq_ok fun i hi => identity_eq hg ?_
  exact Nat.lt_trans ((hg.fits hget).2.1 i hi) (Graph.get_lt hget)

/-- Instantiations of one record have the same identity if the joined identities of their
arguments are the same. -/
theorem spelling_eq_iff (hg : g.WellFormed)
    (hget : g.get id = .ok (.instantiation definition arguments))
    (hget' : g.get id' = .ok (.instantiation definition arguments')) :
    (g.tree id).spelling = (g.tree id').spelling ↔
      String.intercalate "," ((arguments.map g.tree).map TypeTree.spelling) =
        String.intercalate "," ((arguments'.map g.tree).map TypeTree.spelling) := by
  obtain ⟨c, hc, -⟩ := hg.definition hget
  rw [hg.tree_instantiation hget hc, hg.tree_instantiation hget' hc]
  simp only [TypeTree.spelling, TypeTree.spellings_eq_map]
  constructor
  · intro h
    have hlist := congrArg String.toList h
    simp only [String.toList_append, List.append_assoc, List.append_cancel_left_eq] at hlist
    exact String.toList_injective (List.append_cancel_right hlist)
  · intro h
    rw [h]

/-- Equal arguments give equal types. -/
theorem tree_eq_iff (hg : g.WellFormed)
    (hget : g.get id = .ok (.instantiation definition arguments))
    (hget' : g.get id' = .ok (.instantiation definition arguments')) :
    g.tree id = g.tree id' ↔ arguments.map g.tree = arguments'.map g.tree := by
  obtain ⟨c, hc, -⟩ := hg.definition hget
  rw [hg.tree_instantiation hget hc, hg.tree_instantiation hget' hc]
  simp

end Sharing

variable {setup : Setup} {a : Arena} {roots : List TypeId} {trees : List TypeTree} {s : State}
  {units : List Completed}

/-- Units are told apart by their keys. -/
theorem Walked.eq_iff_key_eq (h : Walked setup a roots trees s units) {u u' : Completed}
    (hu : u ∈ units) (hu' : u' ∈ units) : u = u' ↔ u.key = u'.key :=
  ⟨fun heq => congrArg _ heq, fun heq => List.inj_on_of_nodup_map h.nodup_keys hu hu' heq⟩

/-- Two instantiations of a record without type parameters in them share their unit exactly if the
joined identities of their arguments are the same. Equal arguments always do, and in a readable
document no others do. -/
theorem walk_sharing {d : ModelDocument} {m : LoadedModel} {options : Options}
    (hload : load d = .ok m) (hroots : ∀ id : Nat, id ∈ roots → id < d.definitions.length)
    (hwalk : walk ⟨{ options with generics := .monomorphize }, fun _ => none⟩ .empty m.model roots =
      .ok units) :
    ∃ s, explore ⟨{ options with generics := .monomorphize }, fun _ => none⟩ .empty m.model roots =
        .ok s ∧
      ∀ (id id' definition : TypeId) (arguments arguments' : List TypeId) (u u' : Completed),
        s.graph.get id = .ok (.instantiation definition arguments) →
        s.graph.get id' = .ok (.instantiation definition arguments') →
        mentionsParameter s.graph id = .ok false → mentionsParameter s.graph id' = .ok false →
        u ∈ units → identity s.graph id = .ok u.key →
        u' ∈ units → identity s.graph id' = .ok u'.key →
        (∃ texts texts', arguments.mapM (identity s.graph) = .ok texts ∧
          arguments'.mapM (identity s.graph) = .ok texts' ∧
          (u = u' ↔ String.intercalate "," texts = String.intercalate "," texts')) ∧
        (arguments.map s.graph.tree = arguments'.map s.graph.tree → u = u') ∧
        (ReadableDocument d → u = u' →
          arguments.map s.graph.tree = arguments'.map s.graph.tree) := by
  have hloaded := loaded hload
  obtain ⟨trees, s, h⟩ := exists_walked hload (fun _ => rfl) hroots hwalk
  refine ⟨s, h.explored, ?_⟩
  intro id id' definition arguments arguments' u u' hget hget' hclosed hclosed' hu hkey hu' hkey'
  have hg := h.sound.graph
  have hid := Graph.get_lt hget
  have hid' := Graph.get_lt hget'
  rw [identity_eq hg hid, Except.ok.injEq] at hkey
  rw [identity_eq hg hid', Except.ok.injEq] at hkey'
  have hsame : u = u' ↔ (s.graph.tree id).spelling = (s.graph.tree id').spelling := by
    rw [h.eq_iff_key_eq hu hu', hkey, hkey']
  refine ⟨⟨_, _, mapM_identity hg hget, mapM_identity hg hget', ?_⟩, ?_, ?_⟩
  · rw [hsame, spelling_eq_iff hg hget hget']
  · intro heq
    rw [hsame, (tree_eq_iff hg hget hget').mpr heq]
  · intro hd heq
    have hreadable := hd.model hloaded
    have hground {i : Nat} (hi : i < s.graph.size)
        (hmentions : mentionsParameter s.graph i = .ok false) :
        TypeTree.Ground m.model (s.graph.tree i) := by
      rw [mentionsParameter_eq hg hi, Except.ok.injEq] at hmentions
      exact ⟨h.model ▸ hg.tree_over hi, hmentions⟩
    exact (tree_eq_iff hg hget hget').mp (TypeTree.spelling_injective hreadable
      (hground hid hclosed) (hground hid' hclosed') (hsame.mp heq))

/-- A generic record that is applied twice to the same type and once to another one. -/
def threeBoxes : ModelDocument :=
  ⟨[], [
    .complex ⟨"Box", none, ["T"], none, [⟨"value", .parameter "T", false, false, none⟩]⟩,
    .complex ⟨"Holder", none, [], none, [
      ⟨"first", .generic "Box" [.primitive .integer], false, false, none⟩,
      ⟨"second", .generic "Box" [.array (.primitive .integer)], false, false, none⟩,
      ⟨"third", .generic "Box" [.primitive .integer], false, false, none⟩]⟩]⟩

/-- The document of boxes is readable. -/
theorem threeBoxes_readable : ReadableDocument threeBoxes := by
  have hname {name : String} (hne : name ≠ "") (hmarks : name.toList.any isMark = false)
      (htick : '\x60' ∉ name.toList) (hunlike : ∀ kind : Primitive, name ≠ kind.name) :
      IsReadable name := ⟨hne, unmarked_of_any hmarks, htick, hunlike⟩
  constructor
  · intro definition hdefinition
    simp only [threeBoxes, List.mem_cons, List.not_mem_nil, or_false] at hdefinition
    rcases hdefinition with rfl | rfl
    · exact hname (by decide) (by decide) (by decide) fun kind => by cases kind <;> decide +kernel
    · exact hname (by decide) (by decide) (by decide) fun kind => by cases kind <;> decide +kernel
  · decide

/-- The model of these records. -/
def threeBoxesModel : LoadedModel :=
  ⟨⟨#[some (.complex ⟨"Box", none, ["T"], none, [⟨"value", 2, false, false, none⟩]⟩),
      some (.complex ⟨"Holder", none, [], none, [⟨"first", 4, false, false, none⟩,
        ⟨"second", 7, false, false, none⟩, ⟨"third", 9, false, false, none⟩]⟩),
      some (.parameter "T"), some (.primitive .integer), some (.instantiation 0 [3]),
      some (.primitive .integer), some (.array 5), some (.instantiation 0 [6]),
      some (.primitive .integer), some (.instantiation 0 [8])]⟩,
    [], [("Box", 0), ("Holder", 1)]⟩

/-- The first and the third box share a unit because their arguments are the same type, the second
box has its own. -/
theorem walk_sharing_threeBoxes :
    ∃ (m : LoadedModel) (s : State) (box other : Completed), load threeBoxes = .ok m ∧
      explore ⟨{}, fun _ => none⟩ .empty m.model [1] = .ok s ∧
      s.graph.get 4 = .ok (.instantiation 0 [3]) ∧ s.graph.get 7 = .ok (.instantiation 0 [6]) ∧
      s.graph.get 9 = .ok (.instantiation 0 [8]) ∧ identity s.graph 4 = .ok box.key ∧
      identity s.graph 7 = .ok other.key ∧ identity s.graph 9 = .ok box.key ∧
      s.graph.tree 3 = s.graph.tree 8 ∧ box ≠ other := by
  have hload : load threeBoxes = .ok threeBoxesModel := rfl
  have hroots : ∀ id : Nat, id ∈ [1] → id < threeBoxes.definitions.length := by decide
  have hkeys : (walk ⟨{}, fun _ => none⟩ .empty threeBoxesModel.model [1]).map
      (fun units => units.map fun unit => unit.key) =
        .ok ["Holder", "Box\x601[integer]", "Box\x601[integer[]]"] := by decide +kernel
  have hfirst : (explore ⟨{}, fun _ => none⟩ .empty threeBoxesModel.model [1]).map
      (fun s => (s.graph.get 4, mentionsParameter s.graph 4, identity s.graph 4)) =
        .ok (.ok (.instantiation 0 [3]), .ok false, .ok "Box\x601[integer]") := by decide +kernel
  have hsecond : (explore ⟨{}, fun _ => none⟩ .empty threeBoxesModel.model [1]).map
      (fun s => (s.graph.get 7, mentionsParameter s.graph 7, identity s.graph 7)) =
        .ok (.ok (.instantiation 0 [6]), .ok false, .ok "Box\x601[integer[]]") := by decide +kernel
  have hthird : (explore ⟨{}, fun _ => none⟩ .empty threeBoxesModel.model [1]).map
      (fun s => (s.graph.get 9, mentionsParameter s.graph 9, identity s.graph 9)) =
        .ok (.ok (.instantiation 0 [8]), .ok false, .ok "Box\x601[integer]") := by decide +kernel
  obtain ⟨units, hwalk, hkeys⟩ := exists_of_map_eq_ok hkeys
  obtain ⟨box, hbox, hboxkey⟩ : ∃ box ∈ units, box.key = "Box\x601[integer]" :=
    List.mem_map.mp (hkeys ▸ by simp)
  obtain ⟨other, hother, hotherkey⟩ : ∃ other ∈ units, other.key = "Box\x601[integer[]]" :=
    List.mem_map.mp (hkeys ▸ by simp)
  have hsharing := @walk_sharing [1] units threeBoxes threeBoxesModel {} hload hroots hwalk
  obtain ⟨s, hexplore, h⟩ := hsharing
  have hexplore' : explore ⟨{}, fun _ => none⟩ .empty threeBoxesModel.model [1] = .ok s := hexplore
  rw [hexplore'] at hfirst hsecond hthird
  simp only [Except.map, Except.ok.injEq, Prod.mk.injEq] at hfirst hsecond hthird
  obtain ⟨hget, hclosed, hkey⟩ := hfirst
  obtain ⟨hget', -, hkey'⟩ := hsecond
  obtain ⟨hget'', hclosed'', hkey''⟩ := hthird
  rw [← hboxkey] at hkey hkey''
  rw [← hotherkey] at hkey'
  have hsame := (h 4 9 0 [3] [8] box box hget hget'' hclosed hclosed'' hbox hkey hbox hkey'').2.2
    threeBoxes_readable rfl
  have hne : box ≠ other := by
    rintro rfl
    rw [hboxkey] at hotherkey
    exact absurd hotherkey (by decide)
  exact ⟨threeBoxesModel, s, box, other, hload, hexplore', hget, hget', hget'', hkey, hkey', hkey'',
    (List.cons.inj hsame).1, hne⟩

/-- A generic record that is applied to a primitive type and to an enumeration with its name. -/
def sameNames : ModelDocument :=
  ⟨[], [
    .complex ⟨"Box", none, ["T"], none, [⟨"value", .parameter "T", false, false, none⟩]⟩,
    .enum ⟨"integer", none, [⟨"One", .number 1⟩]⟩,
    .complex ⟨"Holder", none, [], none, [
      ⟨"count", .generic "Box" [.primitive .integer], false, false, none⟩,
      ⟨"choice", .generic "Box" [.ref "integer"], false, false, none⟩]⟩]⟩

/-- The model of these records. -/
def sameNamesModel : LoadedModel :=
  ⟨⟨#[some (.complex ⟨"Box", none, ["T"], none, [⟨"value", 3, false, false, none⟩]⟩),
      some (.enum ⟨"integer", none, [⟨"One", .number 1⟩]⟩),
      some (.complex ⟨"Holder", none, [], none, [⟨"count", 5, false, false, none⟩,
        ⟨"choice", 6, false, false, none⟩]⟩),
      some (.parameter "T"), some (.primitive .integer), some (.instantiation 0 [4]),
      some (.instantiation 0 [1])]⟩,
    [], [("Box", 0), ("integer", 1), ("Holder", 2)]⟩

/-- Elsewhere different arguments may share a unit: here both boxes become the box of numbers. -/
theorem sameNames_shared :
    ∃ (m : LoadedModel) (s : State) (units : List Completed) (box : Completed),
      load sameNames = .ok m ∧ walk ⟨{}, fun _ => none⟩ .empty m.model [2] = .ok units ∧
      explore ⟨{}, fun _ => none⟩ .empty m.model [2] = .ok s ∧ box ∈ units ∧
      s.graph.get 5 = .ok (.instantiation 0 [4]) ∧ s.graph.get 6 = .ok (.instantiation 0 [1]) ∧
      mentionsParameter s.graph 5 = .ok false ∧ mentionsParameter s.graph 6 = .ok false ∧
      identity s.graph 5 = .ok box.key ∧ identity s.graph 6 = .ok box.key ∧
      [4].map s.graph.tree ≠ [1].map s.graph.tree := by
  have hload : load sameNames = .ok sameNamesModel := rfl
  have hroots : ∀ id : Nat, id ∈ [2] → id < sameNames.definitions.length := by decide
  have hkeys : (walk ⟨{}, fun _ => none⟩ .empty sameNamesModel.model [2]).map
      (fun units => units.map fun unit => unit.key) = .ok ["Holder", "Box\x601[integer]"] := by
    decide +kernel
  have hcount : (explore ⟨{}, fun _ => none⟩ .empty sameNamesModel.model [2]).map
      (fun s => (s.graph.get 5, mentionsParameter s.graph 5, identity s.graph 5, s.graph.get 4)) =
        .ok (.ok (.instantiation 0 [4]), .ok false, .ok "Box\x601[integer]",
          .ok (.primitive .integer)) := by
    decide +kernel
  have hchoice : (explore ⟨{}, fun _ => none⟩ .empty sameNamesModel.model [2]).map
      (fun s => (s.graph.get 6, mentionsParameter s.graph 6, identity s.graph 6, s.graph.get 1)) =
        .ok (.ok (.instantiation 0 [1]), .ok false, .ok "Box\x601[integer]",
          .ok (.enum ⟨"integer", none, [⟨"One", .number 1⟩]⟩)) := by
    decide +kernel
  obtain ⟨units, hwalk, hkeys⟩ := exists_of_map_eq_ok hkeys
  obtain ⟨box, hbox, hkey⟩ : ∃ box ∈ units, box.key = "Box\x601[integer]" :=
    List.mem_map.mp (hkeys ▸ by simp)
  obtain ⟨trees, s, h⟩ := exists_walked hload (fun _ => rfl) hroots hwalk
  rw [h.explored] at hcount hchoice
  simp only [Except.map, Except.ok.injEq, Prod.mk.injEq] at hcount hchoice
  obtain ⟨hget, hclosed, hidentity, hnumber⟩ := hcount
  obtain ⟨hget', hclosed', hidentity', henum⟩ := hchoice
  rw [← hkey] at hidentity hidentity'
  refine ⟨sameNamesModel, s, units, box, hload, hwalk, h.explored, hbox, hget, hget', hclosed,
    hclosed', hidentity, hidentity', ?_⟩
  intro heq
  have htree := (List.cons.inj heq).1
  rw [h.sound.graph.tree_eq hnumber, h.sound.graph.tree_eq henum] at htree
  cases htree

end Declgen.Walk
