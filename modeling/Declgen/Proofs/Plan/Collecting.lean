import Declgen.Proofs.EraseDups
import Declgen.Proofs.Plan.Imports
import Mathlib.Data.List.Sort

/-!
# Collecting imports

A set of imports is filled by calls: names are added, other sets are merged into it, and its
modules are sorted. Merging adds what the other set lists, one name after the other. So a set is
known by the pairs of a module and a name that have been added to it or to a set merged into it.
Only the order of its modules tells more: they are in the order of their first insertion until they
are sorted.
-/

namespace Declgen.Plan

namespace ImportSet

/-! ### Calls -/

/-- A call that changes a set of imports. -/
inductive Call where
  /-- A name of a module is added. -/
  | add (module name : String)
  /-- A set that calls of its own have filled is merged. -/
  | merge (calls : List Call)
  /-- The modules are sorted. -/
  | sort

/-- The modules that are listed, in order. -/
def modules (s : ImportSet) : List String := s.entries.map (·.1)

/-- The pairs that are listed, in order. -/
def listing (s : ImportSet) : List (String × String) :=
  s.entries.flatMap fun (module, names) => names.map (module, ·)

/-- Adds pairs of a module and a name one after the other. -/
def addAll (s : ImportSet) (pairs : List (String × String)) : ImportSet :=
  pairs.foldl (fun set (module, name) => set.add module name) s

mutual

/-- The set after a call. -/
def Call.apply (s : ImportSet) : Call → ImportSet
  | .add module name => s.add module name
  | .merge calls => s.merge (applyAll empty calls)
  | .sort => s.sort

/-- The set after several calls. -/
def applyAll (s : ImportSet) : List Call → ImportSet
  | [] => s
  | call :: calls => applyAll (call.apply s) calls

end

mutual

/-- The pairs that a call adds, directly or to the set that it merges. -/
def Call.added : Call → List (String × String)
  | .add module name => [(module, name)]
  | .merge calls => addedBy calls
  | .sort => []

/-- The pairs that several calls add. -/
def addedBy : List Call → List (String × String)
  | [] => []
  | call :: calls => call.added ++ addedBy calls

end

mutual

/-- Whether a call sorts the set or one that is merged into it. -/
def Call.sorts : Call → Bool
  | .add _ _ => false
  | .merge calls => anySorts calls
  | .sort => true

/-- Whether one of several calls sorts. -/
def anySorts : List Call → Bool
  | [] => false
  | call :: calls => call.sorts || anySorts calls

end

/-- The set that calls fill. -/
def collect (calls : List Call) : ImportSet := applyAll empty calls

/-- The pairs that a call inserts into the set itself: merging inserts what the other set lists. -/
def Call.inserted : Call → List (String × String)
  | .add module name => [(module, name)]
  | .merge calls => (collect calls).listing
  | .sort => []

variable {s t : ImportSet} {pairs others : List (String × String)} {module name : String}
  {entries : List (String × List String)}

/-- Calls that follow others are made on the set that these have left. -/
theorem applyAll_append (calls more : List Call) :
    applyAll s (calls ++ more) = applyAll (applyAll s calls) more := by
  induction calls generalizing s with
  | nil => rfl
  | cons call calls ih => exact ih

/-- Sorting after some calls sorts what they fill. -/
theorem collect_concat_sort (calls : List Call) :
    collect (calls ++ [.sort]) = (collect calls).sort :=
  applyAll_append calls [.sort]

/-! ### Merging -/

/-- The names of a module are put in one after the other. -/
theorem addNames_cons (names : List String) :
    addNames module (name :: names) entries =
      addNames module names (addNames module [name] entries) := by
  induction entries with
  | nil => simp [addNames]
  | cons entry entries ih =>
    obtain ⟨other, set⟩ := entry
    by_cases heq : other = module
    · simp [addNames, heq]
    · simp [addNames, heq, ih]

/-- Pairs that follow others are added to the set that these have left. -/
theorem addAll_append : s.addAll (pairs ++ others) = (s.addAll pairs).addAll others :=
  List.foldl_append

/-- Putting names into the entry of a module adds them one by one. -/
theorem addAll_names {names : List String} (hne : names ≠ []) :
    s.addAll (names.map (module, ·)) = ⟨addNames module names s.entries⟩ := by
  induction names generalizing s with
  | nil => contradiction
  | cons name names ih =>
    cases names with
    | nil => rfl
    | cons second names =>
      rw [addNames_cons, List.map_cons]
      exact ih (List.cons_ne_nil _ _)

/-- Merging a set adds what it lists, unless it lists a module without names. -/
theorem merge_eq_addAll (h : ∀ entry ∈ t.entries, entry.2 ≠ []) :
    s.merge t = s.addAll t.listing := by
  obtain ⟨entries⟩ := t
  induction entries generalizing s with
  | nil => rfl
  | cons entry entries ih =>
    obtain ⟨module, names⟩ := entry
    obtain ⟨hne, hentries⟩ := List.forall_mem_cons.mp h
    calc s.merge ⟨(module, names) :: entries⟩
        = merge ⟨addNames module names s.entries⟩ ⟨entries⟩ := rfl
      _ = (s.addAll (names.map (module, ·))).addAll (listing ⟨entries⟩) := by
          rw [ih hentries, addAll_names hne]
      _ = s.addAll (listing ⟨(module, names) :: entries⟩) := by
          rw [← addAll_append]
          rfl

namespace Holds

/-- What a set holds does not depend on the order of the pairs and on how often they are given. -/
theorem congr (h : s.Holds pairs) (hpairs : ∀ pair, pair ∈ pairs ↔ pair ∈ others) :
    s.Holds others where
  nodup := h.nodup
  sorted := h.sorted
  names module names hin name := (h.names module names hin name).trans (hpairs _)
  modules module := (h.modules module).trans (exists_congr fun _ => hpairs _)

/-- No module is listed without a name. -/
theorem ne_nil (h : s.Holds pairs) {entry : String × List String} (hentry : entry ∈ s.entries) :
    entry.2 ≠ [] := by
  obtain ⟨name, hname⟩ := (h.modules entry.1).mp (List.mem_map_of_mem hentry)
  exact List.ne_nil_of_mem ((h.names _ _ hentry name).mpr hname)

/-- The pairs that are listed are those that the set holds. -/
theorem mem_listing (h : s.Holds pairs) (pair : String × String) :
    pair ∈ s.listing ↔ pair ∈ pairs := by
  obtain ⟨module, name⟩ := pair
  simp only [listing, List.mem_flatMap, List.mem_map, Prod.mk.injEq, Prod.exists]
  constructor
  · rintro ⟨_, names, hentry, _, hname, rfl, rfl⟩
    exact (h.names _ _ hentry _).mp hname
  · intro hpair
    obtain ⟨⟨_, names⟩, hentry, rfl⟩ := List.mem_map.mp ((h.modules module).mpr ⟨name, hpair⟩)
    exact ⟨_, names, hentry, name, (h.names _ _ hentry name).mpr hpair, rfl, rfl⟩

/-- Whether a pair is known. -/
theorem hasName_iff (h : s.Holds pairs) :
    s.hasName module name = true ↔ (module, name) ∈ pairs := by
  rw [← h.mem_listing]
  simp [hasName, listing]

/-- Whether a module is known: it is if there is a name with it. -/
theorem hasModule_iff (h : s.Holds pairs) :
    s.hasModule module = true ↔ ∃ name, (module, name) ∈ pairs := by
  rw [← h.modules]
  simp [hasModule]

/-- Merging two sets. -/
theorem merge (h : s.Holds pairs) (ht : t.Holds others) : (s.merge t).Holds (pairs ++ others) := by
  rw [merge_eq_addAll fun entry => ht.ne_nil]
  refine (h.foldl t.listing).congr fun pair => ?_
  rw [List.mem_append, List.mem_append, ht.mem_listing]

/-- Sets that hold the same pairs have the same entries. -/
theorem mem_entries (h : s.Holds pairs) (ht : t.Holds pairs) {entry : String × List String}
    (hentry : entry ∈ s.entries) : entry ∈ t.entries := by
  obtain ⟨module, names⟩ := entry
  have hmodule : module ∈ t.entries.map (·.1) :=
    (ht.modules module).mpr ((h.modules module).mp (List.mem_map_of_mem hentry))
  obtain ⟨⟨_, names'⟩, hentry', rfl⟩ := List.mem_map.mp hmodule
  have hnames : names = names' :=
    (h.sorted _ _ hentry).eq_of_mem_iff (ht.sorted _ _ hentry') fun name =>
      (h.names _ _ hentry name).trans (ht.names _ _ hentry' name).symm
  rwa [hnames]

/-- Sets that hold the same pairs list the same once they are sorted. -/
theorem sort_eq (h : s.Holds pairs) (ht : t.Holds pairs) : s.sort = t.sort := by
  have hperm : s.sort.entries.Perm t.sort.entries :=
    (List.perm_ext_iff_of_nodup h.sort.nodup.of_map ht.sort.nodup.of_map).mpr fun entry =>
      ⟨h.sort.mem_entries ht.sort, ht.sort.mem_entries h.sort⟩
  have hentries : s.sort.entries = t.sort.entries :=
    hperm.eq_of_pairwise (fun a b _ _ hlt hgt => absurd hgt hlt.asymm)
      (List.pairwise_map.mp h.sorted_modules) (List.pairwise_map.mp ht.sorted_modules)
  exact congrArg ImportSet.mk hentries

end Holds

mutual

/-- A call adds its pairs to those that a set holds. -/
theorem Holds.apply {s : ImportSet} {pairs : List (String × String)} (h : s.Holds pairs) :
    ∀ call : Call, (call.apply s).Holds (pairs ++ call.added)
  | .add module name => h.add module name
  | .merge calls => h.merge (holds_empty.applyAll calls)
  | .sort => by
    rw [Call.added, List.append_nil]
    exact h.sort

/-- Calls add their pairs one after the other. -/
theorem Holds.applyAll {s : ImportSet} {pairs : List (String × String)} (h : s.Holds pairs) :
    ∀ calls, (applyAll s calls).Holds (pairs ++ addedBy calls)
  | [] => by
    rw [addedBy, List.append_nil]
    exact h
  | call :: calls => by
    rw [addedBy, ← List.append_assoc]
    exact (h.apply call).applyAll calls

end

/-- A set that calls have filled holds the pairs that they add. -/
theorem holds_collect (calls : List Call) : (collect calls).Holds (addedBy calls) :=
  holds_empty.applyAll calls

/-! ### The order of modules -/

/-- Added pairs bring their modules in, each at its first pair. -/
theorem modules_addAll (hnodup : s.modules.Nodup) :
    (s.addAll pairs).modules = (s.modules ++ pairs.map (·.1)).eraseDups := by
  induction pairs generalizing s with
  | nil => rw [List.map_nil, List.append_nil, eraseDups_of_nodup hnodup]; rfl
  | cons pair pairs ih =>
    have hadd : (s.add pair.1 pair.2).modules = (s.modules ++ [pair.1]).eraseDups := by
      rw [eraseDups_concat, eraseDups_of_nodup hnodup]
      exact map_fst_addNames
    calc (s.addAll (pair :: pairs)).modules
        = ((s.add pair.1 pair.2).modules ++ pairs.map (·.1)).eraseDups :=
          ih (hadd ▸ nodup_eraseDups _)
      _ = (s.modules ++ (pair :: pairs).map (·.1)).eraseDups := by
          rw [hadd, eraseDups_eraseDups_append, List.append_assoc]
          rfl

/-- The modules of a set are those that it lists names of. -/
theorem Holds.eraseDups_listing (h : s.Holds pairs) :
    (s.listing.map (·.1)).eraseDups = s.modules := by
  have hkeys {entry : String × List String} (hentry : entry ∈ s.entries) :
      ((entry.2.map (entry.1, ·)).map (·.1)).eraseDups = [entry.1] := by
    obtain ⟨name, names, hnames⟩ := List.exists_cons_of_ne_nil (h.ne_nil hentry)
    rw [hnames, List.map_cons, List.map_cons, List.eraseDups_cons]
    simp
  calc (s.listing.map (·.1)).eraseDups
      = (s.entries.map (·.1)).eraseDups := by
        rw [listing, List.map_flatMap]
        exact eraseDups_flatMap_of_keys fun entry => hkeys
    _ = s.modules := eraseDups_of_nodup h.nodup

/-- A call that does not sort adds what it inserts. -/
theorem Call.apply_eq_addAll {call : Call} (h : call ≠ .sort) :
    call.apply s = s.addAll call.inserted := by
  cases call with
  | add module name => rfl
  | merge calls => exact merge_eq_addAll fun entry => (holds_collect calls).ne_nil
  | sort => contradiction

/-- Without sorting, modules are in the order in which they are inserted first. -/
theorem modules_applyAll (hnodup : s.modules.Nodup) {calls : List Call} (h : .sort ∉ calls) :
    (ImportSet.applyAll s calls).modules =
      (s.modules ++ (calls.flatMap Call.inserted).map (·.1)).eraseDups := by
  induction calls generalizing s with
  | nil => rw [List.flatMap_nil, List.map_nil, List.append_nil, eraseDups_of_nodup hnodup]; rfl
  | cons call calls ih =>
    obtain ⟨hcall, hcalls⟩ := List.ne_and_not_mem_of_not_mem_cons h
    have hmodules : (call.apply s).modules =
        (s.modules ++ call.inserted.map (·.1)).eraseDups := by
      rw [Call.apply_eq_addAll (Ne.symm hcall), modules_addAll hnodup]
    rw [ImportSet.applyAll, ih (hmodules ▸ nodup_eraseDups _) hcalls, hmodules,
      eraseDups_eraseDups_append, List.flatMap_cons, List.map_append, List.append_assoc]

mutual

/-- A call that sorts nothing brings its modules in, each at the first pair that it adds. -/
theorem Call.modules_apply {s : ImportSet} (hnodup : s.modules.Nodup) :
    ∀ call : Call, call.sorts = false →
      (call.apply s).modules = (s.modules ++ call.added.map (·.1)).eraseDups
  | .add module name, _ => by
    have hadd : (s.addAll [(module, name)]).modules = (s.modules ++ [module]).eraseDups :=
      modules_addAll hnodup
    exact hadd
  | .merge calls, h => by
    have hmodules : (collect calls).modules = ((addedBy calls).map (·.1)).eraseDups :=
      modules_unsorted (s := empty) List.nodup_nil calls h
    have hlisting := (holds_collect calls).eraseDups_listing
    rw [Call.apply_eq_addAll (by simp), modules_addAll hnodup, Call.inserted,
      ← eraseDups_append_eraseDups, hlisting, hmodules, eraseDups_append_eraseDups, Call.added]

/-- Calls that sort nothing bring their modules in, each at the first pair that they add. -/
theorem modules_unsorted {s : ImportSet} (hnodup : s.modules.Nodup) :
    ∀ calls : List Call, anySorts calls = false →
      (ImportSet.applyAll s calls).modules = (s.modules ++ (addedBy calls).map (·.1)).eraseDups
  | [], _ => by
    rw [addedBy, List.map_nil, List.append_nil, eraseDups_of_nodup hnodup]
    rfl
  | call :: calls, h => by
    obtain ⟨hcall, hcalls⟩ := Bool.or_eq_false_iff.mp h
    have hmodules := Call.modules_apply hnodup call hcall
    rw [ImportSet.applyAll, modules_unsorted (hmodules ▸ nodup_eraseDups _) calls hcalls, hmodules,
      eraseDups_eraseDups_append, addedBy, List.map_append, List.append_assoc]

end

/-- A set that calls have filled has a name of a module exactly if the pair has been added to it or
to a set merged into it. It lists every module once, and the names of a module in order and each
once. Modules are in the order of their first insertion as long as the set is not sorted, which is
the order in which they have been added if no merged set has been sorted either. Calls that add the
same pairs and end with sorting make the same list, with the modules in order. -/
theorem collect_lists (calls : List Call) :
    (∀ module name, (collect calls).hasName module name = true ↔
      (module, name) ∈ addedBy calls) ∧
    (∀ module, (collect calls).hasModule module = true ↔ ∃ name, (module, name) ∈ addedBy calls) ∧
    (collect calls).modules.Nodup ∧
    (∀ entry ∈ (collect calls).entries, entry.2.Pairwise (· < ·)) ∧
    (.sort ∉ calls → (collect calls).modules =
      ((calls.flatMap Call.inserted).map (·.1)).eraseDups) ∧
    (anySorts calls = false → (collect calls).modules = ((addedBy calls).map (·.1)).eraseDups) ∧
    (collect (calls ++ [.sort])).modules.Pairwise (· < ·) ∧
    ∀ others, (∀ pair, pair ∈ addedBy calls ↔ pair ∈ addedBy others) →
      collect (calls ++ [.sort]) = collect (others ++ [.sort]) := by
  have h := holds_collect calls
  refine ⟨fun module name => h.hasName_iff, fun module => h.hasModule_iff, h.nodup,
    fun entry hentry => h.sorted entry.1 entry.2 hentry,
    fun hsort => modules_applyAll (s := empty) List.nodup_nil hsort,
    fun hsort => modules_unsorted (s := empty) List.nodup_nil calls hsort, ?_,
    fun others hpairs => ?_⟩
  · rw [collect_concat_sort]
    exact h.sorted_modules
  · rw [collect_concat_sort, collect_concat_sort]
    exact h.sort_eq ((holds_collect others).congr fun pair => (hpairs pair).symm)

/-- Calls that merge a set with a module of its own into one that lists another module. -/
def orderCalls : List Call :=
  [.add "./order" "Order", .merge [.add "./order" "Line", .add "./customer" "Customer"]]

/-- Calls that add the same pairs in another order and with a repetition. -/
def customerCalls : List Call :=
  [.merge [.add "./customer" "Customer", .add "./order" "Line"], .add "./order" "Order",
    .add "./order" "Line"]

/-- Unsorted the calls list their modules in different orders, and sorted in the same one. -/
theorem collect_lists_orderCalls :
    Call.sort ∉ orderCalls ∧ anySorts orderCalls = false ∧ Call.sort ∉ customerCalls ∧
      (collect orderCalls).modules = ["./order", "./customer"] ∧
      (collect customerCalls).modules = ["./customer", "./order"] ∧
      (∀ pair, pair ∈ addedBy orderCalls ↔ pair ∈ addedBy customerCalls) ∧
      collect (orderCalls ++ [.sort]) = collect (customerCalls ++ [.sort]) := by
  have hsort : Call.sort ∉ orderCalls := by simp [orderCalls]
  have hsort' : Call.sort ∉ customerCalls := by simp [customerCalls]
  have hpairs (pair : String × String) :
      pair ∈ addedBy orderCalls ↔ pair ∈ addedBy customerCalls := by
    simp only [orderCalls, customerCalls, addedBy, Call.added, List.cons_append, List.nil_append,
      List.mem_cons, List.not_mem_nil, or_false]
    tauto
  obtain ⟨-, -, -, -, -, hmodules, -, hsame⟩ := collect_lists orderCalls
  obtain ⟨-, -, -, -, hmodules', -⟩ := collect_lists customerCalls
  exact ⟨hsort, rfl, hsort', (hmodules rfl).trans (by decide +kernel),
    (hmodules' hsort').trans (by decide +kernel), hpairs, hsame customerCalls hpairs⟩

end ImportSet

end Declgen.Plan
