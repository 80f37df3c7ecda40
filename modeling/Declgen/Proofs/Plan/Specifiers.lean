import Declgen.Proofs.Plan.Modules

/-!
# What specifiers mean

A specifier is read in the module that imports: each `../` at its start leaves one folder, and the
names after that are the rest of the path. The specifier of a module leads to this module again, and
no other specifier for it leaves fewer folders.
-/

namespace Declgen.Plan

open TypeScript Text

/-! ### Reading a specifier -/

/-- The climb at the start of a text, and what is left of the text after it. -/
def readClimb : List Char → Nat × List Char
  | '.' :: '.' :: '/' :: rest => ((readClimb rest).1 + 1, (readClimb rest).2)
  | rest => (0, rest)

/-- How many folders a specifier leaves, and the path after that. A single dot leaves none. -/
def readSpecifier (specifier : String) : Nat × String :=
  match specifier.toList with
  | '.' :: '/' :: rest => (0, String.ofList rest)
  | text => ((readClimb text).1, String.ofList (readClimb text).2)

/-- The folders in which a module stands. -/
def enclosing (module : String) : List String := (segments module).dropLast

/-- The module that a specifier means in the module `source`. -/
def resolve (source specifier : String) : String :=
  let kept := (enclosing source).length - (readSpecifier specifier).1
  "/".intercalate ((enclosing source).take kept ++ segments (readSpecifier specifier).2)

/-- No segment of a module path is a dot or two dots. -/
def Dotless (module : String) : Prop := ∀ segment ∈ segments module, segment ≠ "." ∧ segment ≠ ".."

/-- The first segment of a text that starts with two dots and a slash is two dots. -/
theorem dots_mem_segments (rest : List Char) :
    ".." ∈ segments (String.ofList ('.' :: '.' :: '/' :: rest)) := by
  have happend : String.ofList ('.' :: '.' :: '/' :: rest) =
      ".." ++ String.singleton '/' ++ String.ofList rest := by
    rw [← String.toList_inj]
    simp
  rw [segments, happend, splitAt_append]
  exact List.mem_append_left _ (by decide)

/-- A path without dots is not a part of the climb before it. -/
theorem readClimb_of_dotless {path : String} (hpath : Dotless path) :
    readClimb path.toList = (0, path.toList) := by
  rw [readClimb.eq_def]
  split
  · rename_i rest hlist
    have hmem := dots_mem_segments rest
    rw [← hlist, String.ofList_toList] at hmem
    exact absurd rfl (hpath _ hmem).2
  · rfl

/-- Reading a specifier gives back how far it climbs and the path after that. -/
theorem readClimb_copies {path : String} (hpath : Dotless path) (climb : Nat) :
    readClimb ((Layout.copies climb "../").toList ++ path.toList) = (climb, path.toList) := by
  induction climb with
  | zero => exact readClimb_of_dotless hpath
  | succ climb ih =>
    rw [toList_copies_succ, List.cons_append, List.cons_append, List.cons_append, readClimb, ih]

/-- A specifier is read as the climb and the path from which it was written. -/
theorem readSpecifier_climbing {path : String} (hpath : Dotless path) (climb : Nat) :
    readSpecifier (climbing climb ++ path) = (climb, path) := by
  have hread := readClimb_copies hpath climb
  rw [readSpecifier, String.toList_append]
  cases climb with
  | zero => exact congrArg (Prod.mk 0) String.ofList_toList
  | succ climb =>
    have hpair : ((readClimb ((Layout.copies (climb + 1) "../").toList ++ path.toList)).1,
        String.ofList (readClimb ((Layout.copies (climb + 1) "../").toList ++ path.toList)).2) =
          (climb + 1, path) := by
      rw [hread, String.ofList_toList]
    rw [toList_copies_succ] at hpair
    rw [toList_climbing_succ]
    exact hpair

/-! ### Where specifiers lead -/

/-- Where two lists agree, they have at least as much in common. -/
theorem le_commonLength {as bs : List String} {count : Nat} (has : count ≤ as.length)
    (hbs : count ≤ bs.length) (h : as.take count = bs.take count) :
    count ≤ commonLength as bs := by
  induction count generalizing as bs with
  | zero => exact Nat.zero_le _
  | succ count ih =>
    obtain ⟨a, as, rfl⟩ := List.exists_cons_of_length_pos (by omega : 0 < as.length)
    obtain ⟨b, bs, rfl⟩ := List.exists_cons_of_length_pos (by omega : 0 < bs.length)
    rw [List.length_cons, Nat.add_le_add_iff_right] at has hbs
    rw [List.take_succ_cons, List.take_succ_cons, List.cons.injEq] at h
    obtain ⟨rfl, h⟩ := h
    rw [commonLength, if_pos (beq_self_eq_true a)]
    exact Nat.succ_le_succ (ih has hbs h)

/-- A specifier leaves no more folders than there are. -/
theorem route_climb_le (source target : String) :
    (route source target).1 ≤ (enclosing source).length := Nat.sub_le _ _

/-- The folders that a specifier keeps, followed by its names, are the path of the target. -/
theorem take_append_route (source target : String) :
    (enclosing source).take ((enclosing source).length - (route source target).1) ++
      (route source target).2 = segments target := by
  have hleft := commonLength_le_left (enclosing source) (segments target).dropLast
  have hright := commonLength_le_right (enclosing source) (segments target).dropLast
  have htake := take_commonLength (enclosing source) (segments target).dropLast
  rw [route]
  change (enclosing source).take ((enclosing source).length - ((enclosing source).length -
      commonLength (enclosing source) (segments target).dropLast)) ++
    (segments target).drop (commonLength (enclosing source) (segments target).dropLast) = _
  generalize commonLength (enclosing source) (segments target).dropLast = shared at *
  rw [List.length_dropLast] at hright
  rw [Nat.sub_sub_self hleft, htake, List.dropLast_eq_take, List.take_take, Nat.min_eq_left hright,
    List.take_append_drop]

/-- No other way to a module leaves fewer folders, if it ends with a name. -/
theorem route_climb_minimal {source target : String} {climb : Nat} {names : List String}
    (hnames : names ≠ [])
    (h : (enclosing source).take ((enclosing source).length - climb) ++ names = segments target) :
    (route source target).1 ≤ climb := by
  have hpos := List.length_pos_of_ne_nil hnames
  have hlength := congrArg List.length h
  rw [List.length_append, List.length_take] at hlength
  have hbound : (enclosing source).length - climb ≤ (segments target).dropLast.length := by
    rw [List.length_dropLast]
    omega
  -- The folders that are kept are the first ones of the target, without its last name.
  have hsame : (enclosing source).take ((enclosing source).length - climb) =
      (segments target).dropLast.take ((enclosing source).length - climb) := by
    rw [List.length_dropLast] at hbound
    rw [List.dropLast_eq_take, List.take_take, Nat.min_eq_left hbound, ← h]
    exact (List.take_left' (by rw [List.length_take]; omega)).symm
  have hshared := le_commonLength (Nat.sub_le _ climb) hbound hsame
  change (enclosing source).length - commonLength (enclosing source) (segments target).dropLast ≤ _
  omega

/-- The names of a path without dots have no dots either. -/
theorem dotless_route {target : String} (htarget : Dotless target) (source : String) :
    Dotless ("/".intercalate (route source target).2) := by
  intro segment hsegment
  rw [segments_route source target] at hsegment
  exact htarget segment (mem_route hsegment)

/-- A specifier is read as the climb and the names from which it is put together. -/
theorem readSpecifier_relativeModule {target : String} (htarget : Dotless target)
    (source : String) : readSpecifier (relativeModule source target) =
      ((route source target).1, "/".intercalate (route source target).2) := by
  rw [relativeModule_eq, readSpecifier_climbing (dotless_route htarget source)]

/-- In a module the specifier of another module means this module. -/
theorem resolve_relativeModule {target : String} (htarget : Dotless target) (source : String) :
    resolve source (relativeModule source target) = target := by
  rw [resolve, readSpecifier_relativeModule htarget, segments_route, take_append_route]
  exact intercalate_splitAt target

/-- A specifier that means a module leaves at least as many folders as the way to it. -/
theorem route_climb_le_of_resolve {source target specifier : String}
    (h : resolve source specifier = target) :
    (route source target).1 ≤ (readSpecifier specifier).1 := by
  have hne : segments (readSpecifier specifier).2 ≠ [] := splitAt_ne_nil _
  refine route_climb_minimal hne ?_
  rw [← h, resolve]
  refine (splitAt_intercalate (by simp [hne]) fun part hpart => ?_).symm
  rcases List.mem_append.mp hpart with hpart | hpart
  · exact (mem_splitAt (List.dropLast_subset _ (List.mem_of_mem_take hpart))).1
  · exact (mem_splitAt hpart).1

/-- The specifier of a module without dots starts with a dot or a climb that does not leave more
folders than there are. It means the module again, no specifier for the module leaves fewer folders,
and no other module has the same specifier. -/
theorem relativeModule_resolves {target : String} (htarget : Dotless target) (source : String) :
    ("./".toList <+: (relativeModule source target).toList ∨
        "../".toList <+: (relativeModule source target).toList) ∧
      (readSpecifier (relativeModule source target)).1 ≤ (enclosing source).length ∧
      resolve source (relativeModule source target) = target ∧
      (∀ specifier, resolve source specifier = target →
        (readSpecifier (relativeModule source target)).1 ≤ (readSpecifier specifier).1) ∧
      ∀ target', Dotless target' → relativeModule source target' = relativeModule source target →
        target' = target := by
  have hmeans := resolve_relativeModule htarget source
  refine ⟨?_, ?_, hmeans, fun specifier hspecifier => ?_, fun target' htarget' heq => ?_⟩
  · rw [relativeModule_eq, String.toList_append]
    cases (route source target).1 with
    | zero => exact .inl ⟨_, rfl⟩
    | succ climb =>
      rw [toList_climbing_succ]
      exact .inr ⟨_, rfl⟩
  · rw [readSpecifier_relativeModule htarget]
    exact route_climb_le source target
  · rw [readSpecifier_relativeModule htarget]
    exact route_climb_le_of_resolve hspecifier
  · rw [← hmeans, ← heq, resolve_relativeModule htarget' source]

/-- From a module two folders deep one folder is left for a module in the other one, and the folder
that both share keeps its place. -/
theorem relativeModule_resolves_shop :
    Dotless "shop/money" ∧ relativeModule "shop/orders/order" "shop/money" = "../money" ∧
      resolve "shop/orders/order" "../money" = "shop/money" ∧
      ∀ specifier, resolve "shop/orders/order" specifier = "shop/money" →
        1 ≤ (readSpecifier specifier).1 := by
  have hdotless : Dotless "shop/money" := by
    unfold Dotless
    decide
  have heq : relativeModule "shop/orders/order" "shop/money" = "../money" := by decide
  obtain ⟨-, -, hmeans, hleast, -⟩ := relativeModule_resolves hdotless "shop/orders/order"
  rw [heq] at hmeans hleast
  exact ⟨hdotless, heq, hmeans, hleast⟩

end Declgen.Plan
