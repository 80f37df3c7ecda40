import Declgen.Proofs.Units.Registry

/-!
# A registry with indexes

A registry finds its units by going through the slots. Here it keeps, beside the slots, an index of
the keys and an index of the names, each changed by an assignment of its own, and a call can end
between two of them. As long as only reserved units are completed the three stay in step, a call
that fails has assigned nothing, and every call has the answer that it has without the indexes.
-/

namespace Declgen.Units

open TypeScript (UnitId Declaration)

/-- A call to a registry that can change it. -/
inductive Request where
  /-- A unit is reserved. -/
  | reserve (key : String) (header : Header)
  /-- A unit is completed. -/
  | complete (unit : UnitId) (declaration : Declaration) (references : List UnitId)
deriving DecidableEq

/-- How a call ends. -/
inductive Answer where
  /-- A unit has been found or made. -/
  | reserved (reservation : Reservation)
  /-- A unit has been completed. -/
  | completed
  /-- The call is refused. -/
  | failed (error : GenerateError)
  /-- The call has used a number that no unit has. -/
  | crashed
deriving DecidableEq

/-- Whether a call completes only a unit among the first `size` ones. -/
def Request.Within (size : Nat) : Request → Prop
  | .reserve _ _ => True
  | .complete unit _ _ => unit < size

instance (size : Nat) : (request : Request) → Decidable (request.Within size)
  | .reserve _ _ => .isTrue trivial
  | .complete unit _ _ => inferInstanceAs (Decidable (unit < size))

/-- A call and its answer. -/
abbrev Exchange := Request × Answer

/-- The unit that a call has made, with the key and the header that were asked for. -/
def Exchange.made? : Exchange → Option (UnitId × String × Header)
  | (.reserve key header, .reserved ⟨unit, true⟩) => some (unit, key, header)
  | _ => none

/-- Answers a call. Refusing it leaves the registry as it is. -/
def Registry.serve (r : Registry) : Request → Registry × Answer
  | .reserve key header =>
    match r.reserve key header with
    | .ok (r', reservation) => (r', .reserved reservation)
    | .error e => (r, .failed e)
  | .complete unit declaration references =>
    match r.complete unit declaration references with
    | .ok r' => (r', .completed)
    | .error e => (r, .failed e)

/-- Answers calls to the empty registry one after the other. -/
def Registry.serveAll (requests : List Request) : Registry × List Answer :=
  requests.foldl (fun (r, answers) request =>
    ((r.serve request).1, answers ++ [(r.serve request).2])) (.empty, [])

/-- A registry with an index of its keys and one of its names. -/
structure Indexed where
  /-- The units reserved so far. -/
  slots : Array Slot
  /-- The number of the unit with a key. -/
  byKey : List (String × UnitId)
  /-- The number of the unit with a name. -/
  byName : List (String × UnitId)
deriving DecidableEq

/-- A call in progress. What it has assigned stays assigned when it ends early. -/
abbrev Serving := EStateM Answer Indexed

namespace Indexed

/-- The registry without any unit. -/
def empty : Indexed := ⟨#[], [], []⟩

/-- The registry without its indexes. -/
def registry (r : Indexed) : Registry := ⟨r.slots⟩

/-- The slot of a unit. -/
def slotOf (unit : UnitId) : Serving Slot := do
  match (← get).slots[unit]? with
  | some slot => return slot
  | none => throw .crashed

/-- Reserves a unit for an identity, or finds the one that it has. -/
def reserve (key : String) (header : Header) : Serving Reservation := do
  match (← get).byKey.lookup key with
  | some unit => return ⟨unit, false⟩
  | none =>
    match (← get).byName.lookup header.name with
    | some owner =>
      let other ← slotOf owner
      throw (.failed (.ambiguousName header.name other.key key))
    | none =>
      let unit := (← get).slots.size
      modify fun r => { r with byKey := (key, unit) :: r.byKey }
      modify fun r => { r with byName := (header.name, unit) :: r.byName }
      modify fun r => { r with slots := r.slots.push ⟨key, header, none⟩ }
      return ⟨unit, true⟩

/-- Completes a unit. It does not count among its own references. -/
def complete (unit : UnitId) (declaration : Declaration) (references : List UnitId) :
    Serving Unit := do
  let slot ← slotOf unit
  match slot.body with
  | some _ => throw (.failed (.completedTwice slot.header.name))
  | none =>
    let body : Body := ⟨declaration, references.filter (· != unit)⟩
    modify fun r => { r with slots := r.slots.setIfInBounds unit { slot with body := some body } }

/-- Answers a call, whose assignments stay however it ends. -/
def serve (r : Indexed) : Request → Indexed × Answer
  | .reserve key header =>
    match (reserve key header).run r with
    | .ok reservation r' => (r', .reserved reservation)
    | .error answer r' => (r', answer)
  | .complete unit declaration references =>
    match (complete unit declaration references).run r with
    | .ok () r' => (r', .completed)
    | .error answer r' => (r', answer)

variable {r r' r'' : Indexed} {key : String} {header : Header} {unit : UnitId}
  {request : Request} {answer : Answer} {log log' : List Exchange}

/-! ### The indexes -/

/-- An index relates the texts of the slots and the numbers of the units one to one: it has an
entry for each slot, and none besides. -/
def Indexes (index : List (String × UnitId)) (part : Slot → String) (slots : Array Slot) : Prop :=
  ∀ text unit, index.lookup text = some unit ↔ (slots[unit]?).map part = some text

/-- The indexes are those of the slots. -/
structure InStep (r : Indexed) : Prop where
  /-- The keys are found. -/
  byKey : Indexes r.byKey (·.key) r.slots
  /-- The names are found. -/
  byName : Indexes r.byName (·.header.name) r.slots

section Indexes

variable {index : List (String × UnitId)} {part : Slot → String} {slots : Array Slot}
  {text : String}

/-- A text is not indexed if no slot has it. -/
theorem Indexes.lookup_eq_none_iff (h : Indexes index part slots) :
    index.lookup text = none ↔ ∀ slot ∈ slots, part slot ≠ text := by
  rw [Option.eq_none_iff_forall_ne_some]
  constructor
  · intro hnone slot hslot heq
    obtain ⟨i, hi⟩ := Array.mem_iff_getElem?.mp hslot
    exact hnone i ((h text i).mpr (by rw [hi, Option.map_some, heq]))
  · intro hne unit hunit
    obtain ⟨slot, hslot, heq⟩ := Option.map_eq_some_iff.mp ((h text unit).mp hunit)
    exact hne slot (Array.mem_of_getElem? hslot) heq

/-- Two slots with the same text are the same one. -/
theorem Indexes.unique (h : Indexes index part slots) {i j : Nat} {slot other : Slot}
    (hi : slots[i]? = some slot) (hj : slots[j]? = some other) (heq : part slot = part other) :
    i = j := by
  have hslot := (h (part slot) i).mpr (by rw [hi, Option.map_some])
  have hother := (h (part slot) j).mpr (by rw [hj, Option.map_some, heq])
  exact Option.some.inj (hslot.symm.trans hother)

/-- Going through the slots finds what the index finds. -/
theorem Indexes.findIdx?_eq (h : Indexes index part slots) (text : String) :
    (slots.findIdx? fun slot => part slot == text) = index.lookup text := by
  cases hlookup : index.lookup text with
  | none =>
    rw [Array.findIdx?_eq_none_iff]
    exact fun slot hslot => by simpa using h.lookup_eq_none_iff.mp hlookup slot hslot
  | some unit =>
    obtain ⟨slot, hslot, heq⟩ := Option.map_eq_some_iff.mp ((h text unit).mp hlookup)
    obtain ⟨hlt, rfl⟩ := Array.getElem?_eq_some_iff.mp hslot
    rw [Array.findIdx?_eq_some_iff_getElem]
    refine ⟨hlt, by simpa using heq, fun j hj hpart => ?_⟩
    have hother : slots[j]? = some slots[j] := Array.getElem?_eq_getElem _
    exact Nat.ne_of_lt hj (h.unique hother hslot ((eq_of_beq hpart).trans heq.symm))

/-- An index takes in a slot whose text it lacks. -/
theorem Indexes.push (h : Indexes index part slots) (slot : Slot)
    (hnew : index.lookup (part slot) = none) :
    Indexes ((part slot, slots.size) :: index) part (slots.push slot) := by
  intro text unit
  have hnone := h.lookup_eq_none_iff.mp hnew
  rw [List.lookup_cons, Array.getElem?_push]
  cases htext : text == part slot with
  | true =>
    cases eq_of_beq htext
    by_cases hunit : unit = slots.size
    · simp [hunit]
    · rw [if_neg hunit]
      refine iff_of_false (fun heq => hunit (Option.some.inj heq).symm) fun heq => ?_
      obtain ⟨other, hother, hpart⟩ := Option.map_eq_some_iff.mp heq
      exact hnone other (Array.mem_of_getElem? hother) hpart
  | false =>
    by_cases hunit : unit = slots.size
    · subst hunit
      rw [if_pos rfl]
      refine iff_of_false (fun heq => ?_) fun heq => ?_
      · have hsize := (h text slots.size).mp heq
        rw [Array.getElem?_eq_none (Nat.le_refl _)] at hsize
        cases hsize
      · exact beq_eq_false_iff_ne.mp htext (Option.some.inj heq).symm
    · rw [if_neg hunit]
      exact h text unit

/-- An index depends on nothing but the texts. -/
theorem Indexes.congr (h : Indexes index part slots) {slots' : Array Slot}
    (hsame : ∀ i : Nat, (slots'[i]?).map part = (slots[i]?).map part) :
    Indexes index part slots' := by
  intro text unit
  rw [hsame unit]
  exact h text unit

end Indexes

/-! ### One call -/

/-- The registry with one more unit. -/
def push (r : Indexed) (key : String) (header : Header) : Indexed :=
  ⟨r.slots.push ⟨key, header, none⟩, (key, r.slots.size) :: r.byKey,
    (header.name, r.slots.size) :: r.byName⟩

/-- The registry with another slot for a unit. -/
def set (r : Indexed) (unit : UnitId) (slot : Slot) : Indexed :=
  { r with slots := r.slots.setIfInBounds unit slot }

/-- What a call can do. -/
inductive Step (r : Indexed) : Request → Answer → Indexed → Prop
  /-- The key has a unit. -/
  | known {key : String} {header : Header} {unit : UnitId}
      (hkey : r.byKey.lookup key = some unit) :
    Step r (.reserve key header) (.reserved ⟨unit, false⟩) r
  /-- The key has no unit, and the name has one. -/
  | taken {key : String} {header : Header} {owner : UnitId} {slot : Slot}
      (hkey : r.byKey.lookup key = none) (hname : r.byName.lookup header.name = some owner)
      (hslot : r.slots[owner]? = some slot) :
    Step r (.reserve key header) (.failed (.ambiguousName header.name slot.key key)) r
  /-- Neither the key nor the name has a unit. -/
  | new {key : String} {header : Header}
      (hkey : r.byKey.lookup key = none) (hname : r.byName.lookup header.name = none) :
    Step r (.reserve key header) (.reserved ⟨r.slots.size, true⟩) (r.push key header)
  /-- The unit has its body. -/
  | twice {unit : UnitId} {declaration : Declaration} {references : List UnitId} {slot : Slot}
      {body : Body} (hslot : r.slots[unit]? = some slot) (hbody : slot.body = some body) :
    Step r (.complete unit declaration references) (.failed (.completedTwice slot.header.name)) r
  /-- The unit lacks its body. -/
  | done {unit : UnitId} {declaration : Declaration} {references : List UnitId} {slot : Slot}
      (hslot : r.slots[unit]? = some slot) (hbody : slot.body = none) :
    Step r (.complete unit declaration references) .completed
      (r.set unit { slot with body := some ⟨declaration, references.filter (· != unit)⟩ })

/-- What a step can do is what the call does. -/
theorem Step.serve_eq (h : r.Step request answer r') : r.serve request = (r', answer) := by
  cases h with
  | known hkey =>
    simp only [serve, reserve, EStateM.run_bind, EStateM.run_get, hkey]
    rfl
  | taken hkey hname hslot =>
    simp only [serve, reserve, slotOf, EStateM.run_bind, EStateM.run_get, hkey, hname, hslot]
    rfl
  | new hkey hname =>
    simp only [serve, reserve, EStateM.run_bind, EStateM.run_get, hkey, hname]
    rfl
  | twice hslot hbody =>
    simp only [serve, complete, slotOf, EStateM.run_bind, EStateM.run_get, EStateM.run_pure, hslot,
      hbody]
    rfl
  | done hslot hbody =>
    simp only [serve, complete, slotOf, EStateM.run_bind, EStateM.run_get, EStateM.run_pure, hslot,
      hbody]
    rfl

/-- With the indexes in step, a call on a reserved unit does one of these things. -/
theorem InStep.step (h : r.InStep) (hwithin : request.Within r.slots.size) :
    r.Step request (r.serve request).2 (r.serve request).1 := by
  suffices hstep : ∃ answer r', r.Step request answer r' by
    obtain ⟨answer, r', hstep⟩ := hstep
    rw [hstep.serve_eq]
    exact hstep
  cases request with
  | reserve key header =>
    cases hkey : r.byKey.lookup key with
    | some unit => exact ⟨_, _, .known hkey⟩
    | none =>
      cases hname : r.byName.lookup header.name with
      | some owner =>
        -- What an index finds is a slot, so that there is a key to report.
        obtain ⟨slot, hslot, -⟩ := Option.map_eq_some_iff.mp ((h.byName header.name owner).mp hname)
        exact ⟨_, _, .taken hkey hname hslot⟩
      | none => exact ⟨_, _, .new hkey hname⟩
  | complete unit declaration references =>
    have hslot : r.slots[unit]? = some r.slots[unit] := Array.getElem?_eq_getElem hwithin
    cases hbody : r.slots[unit].body with
    | some body => exact ⟨_, _, .twice hslot hbody⟩
    | none => exact ⟨_, _, .done hslot hbody⟩

/-- Another slot for a unit changes nothing that the two slots agree on. -/
theorem map_getElem?_set {α : Type} {part : Slot → α} {slots : Array Slot} {slot slot' : Slot}
    (hslot : slots[unit]? = some slot) (hsame : part slot' = part slot) (i : Nat) :
    ((slots.setIfInBounds unit slot')[i]?).map part = (slots[i]?).map part := by
  by_cases hi : unit = i
  · subst hi
    obtain ⟨hlt, -⟩ := Array.getElem?_eq_some_iff.mp hslot
    rw [Array.getElem?_setIfInBounds_self_of_lt hlt, hslot, Option.map_some, Option.map_some, hsame]
  · rw [Array.getElem?_setIfInBounds_ne hi]

/-- A list made from the slots stays the same if the new slot gives the same entry. -/
theorem mapIdx_set {α : Type} {entry : Nat → Slot → α} {slots : Array Slot} {slot slot' : Slot}
    (hslot : slots[unit]? = some slot) (hsame : ∀ i, entry i slot' = entry i slot) :
    (slots.setIfInBounds unit slot').toList.mapIdx entry = slots.toList.mapIdx entry := by
  refine List.ext_getElem? fun i => ?_
  rw [List.getElem?_mapIdx, List.getElem?_mapIdx, Array.getElem?_toList, Array.getElem?_toList]
  exact map_getElem?_set hslot (hsame i) i

/-- The empty registry is in step with its empty indexes. -/
private theorem inStep_empty : empty.InStep := by
  constructor <;> simp [Indexes, empty]

/-- A call keeps the indexes in step. -/
theorem Step.inStep (h : r.Step request answer r') (hr : r.InStep) : r'.InStep := by
  cases h with
  | known _ | taken _ _ _ | twice _ _ => exact hr
  | @new key header hkey hname =>
    exact ⟨hr.byKey.push ⟨key, header, none⟩ hkey, hr.byName.push ⟨key, header, none⟩ hname⟩
  | done hslot _ =>
    exact ⟨hr.byKey.congr (map_getElem?_set hslot rfl),
      hr.byName.congr (map_getElem?_set hslot rfl)⟩

/-- A call does and answers the same without the indexes. -/
theorem Step.registry_serve (h : r.Step request answer r') (hr : r.InStep) :
    r.registry.serve request = (r'.registry, answer) := by
  have hlookup (key : String) : r.registry.lookup key = r.byKey.lookup key :=
    hr.byKey.findIdx?_eq key
  have hfind (name : String) : (r.registry.slots.find? fun slot => slot.header.name == name) =
      (r.byName.lookup name).bind fun owner => r.slots[owner]? :=
    Array.find?_eq_bind_findIdx?_getElem?.trans
      (congrArg (·.bind fun owner => r.slots[owner]?) (hr.byName.findIdx?_eq name))
  cases h with
  | known hkey => simp only [Registry.serve, Registry.reserve, hlookup, hkey]
  | taken hkey hname hslot =>
    simp only [Registry.serve, Registry.reserve, hlookup, hkey, hfind, hname, Option.bind_some,
      hslot]
  | new hkey hname =>
    simp only [Registry.serve, Registry.reserve, hlookup, hkey, hfind, hname, Option.bind_none]
    rfl
  | twice hslot hbody =>
    have hslot' : r.registry.slots[_]? = some _ := hslot
    simp only [Registry.serve, Registry.complete, hslot', hbody]
  | done hslot hbody =>
    rw [Registry.serve, Registry.complete_eq hslot hbody]
    rfl

/-- Completing a unit succeeds if it lacks its body, and fails otherwise. -/
theorem answer_complete {slot : Slot} (hslot : r.slots[unit]? = some slot)
    {declaration : Declaration} {references : List UnitId} :
    (r.serve (.complete unit declaration references)).2 =
      match slot.body with
      | none => .completed
      | some _ => .failed (.completedTwice slot.header.name) := by
  cases hbody : slot.body with
  | none => rw [(Step.done hslot hbody).serve_eq]
  | some body => rw [(Step.twice hslot hbody).serve_eq]

/-- A call that fails has changed nothing. -/
theorem Step.eq_of_failed {error : GenerateError} (h : r.Step request (.failed error) r') :
    r' = r := by
  cases h with
  | taken _ _ _ | twice _ _ => rfl

/-- A call on a reserved unit uses no number that no unit has. -/
theorem Step.answer_ne_crashed (h : r.Step request answer r') : answer ≠ .crashed := by
  cases h <;> simp

/-- A reservation fails exactly if the key is new and the name belongs to another one. -/
theorem InStep.refused (h : r.InStep) {error : GenerateError} :
    (r.serve (.reserve key header)).2 = .failed error ↔
      (∀ slot ∈ r.slots, slot.key ≠ key) ∧ ∃ owner ∈ r.slots, owner.header.name = header.name ∧
        error = .ambiguousName header.name owner.key key := by
  constructor
  · intro hfailed
    have hstep : r.Step (.reserve key header) _ _ := h.step trivial
    rw [hfailed] at hstep
    generalize (r.serve (.reserve key header)).1 = r' at hstep
    cases hstep with
    | @taken _ _ owner slot hkey hname hslot =>
      refine ⟨h.byKey.lookup_eq_none_iff.mp hkey, slot, Array.mem_of_getElem? hslot, ?_, rfl⟩
      have howner := (h.byName header.name owner).mp hname
      rw [hslot] at howner
      exact Option.some.inj howner
  · rintro ⟨hkey, owner, howner, hname, rfl⟩
    obtain ⟨i, hi⟩ := Array.mem_iff_getElem?.mp howner
    have hlookup := (h.byName header.name i).mpr (by rw [hi, Option.map_some, hname])
    rw [(Step.taken (h.byKey.lookup_eq_none_iff.mpr hkey) hlookup hi).serve_eq]

/-- One registry has the keys and the headers of another one, and its bodies. -/
def Keeps (r r' : Indexed) : Prop :=
  ∀ (unit : Nat) (slot : Slot), r.slots[unit]? = some slot →
    ∃ body, r'.slots[unit]? = some { slot with body := body } ∧
      ∀ known, slot.body = some known → body = some known

/-- A registry keeps its own keys, headers and bodies. -/
theorem Keeps.refl (r : Indexed) : r.Keeps r :=
  fun _ slot hslot => ⟨slot.body, hslot, fun _ h => h⟩

/-- What is kept twice is kept. -/
theorem Keeps.trans (h : r.Keeps r') (h' : r'.Keeps r'') : r.Keeps r'' := by
  intro unit slot hslot
  obtain ⟨body, hbody, hknown⟩ := h unit slot hslot
  obtain ⟨body', hbody', hknown'⟩ := h' unit _ hbody
  exact ⟨body', hbody', fun known heq => hknown' known (hknown known heq)⟩

/-- A call keeps keys, headers and bodies. -/
theorem Step.keeps (h : r.Step request answer r') : r.Keeps r' := by
  cases h with
  | known _ | taken _ _ _ | twice _ _ => exact Keeps.refl r
  | @new key header _ _ =>
    intro unit slot hslot
    obtain ⟨hlt, -⟩ := Array.getElem?_eq_some_iff.mp hslot
    refine ⟨slot.body, ?_, fun _ heq => heq⟩
    rw [push, Array.getElem?_push, if_neg (Nat.ne_of_lt hlt), hslot]
  | @done changed declaration references slot hslot hbody =>
    intro unit other hother
    by_cases hunit : changed = unit
    · subst hunit
      cases hslot.symm.trans hother
      obtain ⟨hlt, -⟩ := Array.getElem?_eq_some_iff.mp hslot
      refine ⟨_, Array.getElem?_setIfInBounds_self_of_lt hlt, fun known heq => ?_⟩
      rw [hbody] at heq
      cases heq
    · exact ⟨other.body, (Array.getElem?_setIfInBounds_ne hunit).trans hother, fun _ heq => heq⟩

/-! ### All calls -/

/-- Calls on reserved units lead from one registry to another, and these are their answers. -/
inductive Served (r : Indexed) : List Exchange → Indexed → Prop
  /-- No call has been made. -/
  | start : Served r [] r
  /-- One more call is made. -/
  | next {log : List Exchange} {r' : Indexed} (before : Served r log r') (request : Request)
      (hwithin : request.Within r'.slots.size) :
    Served r (log ++ [(request, (r'.serve request).2)]) (r'.serve request).1

/-- Calls keep the indexes in step, and what they find. -/
theorem Served.inStep_and_keeps (h : r.Served log r') (hr : r.InStep) : r'.InStep ∧ r.Keeps r' := by
  induction h with
  | start => exact ⟨hr, Keeps.refl r⟩
  | next _ request hwithin ih =>
    have hstep := ih.1.step hwithin
    exact ⟨hstep.inStep ih.1, ih.2.trans hstep.keeps⟩

/-- Without the indexes the same calls have the same answers and lead to the same units. -/
theorem Served.serveAll_eq (h : empty.Served log r) :
    Registry.serveAll (log.map (·.1)) = (r.registry, log.map (·.2)) := by
  induction h with
  | start => rfl
  | @next log r' before request hwithin ih =>
    have hin : r'.InStep := (before.inStep_and_keeps inStep_empty).1
    have hserve := (hin.step hwithin).registry_serve hin
    rw [Registry.serveAll] at ih ⊢
    rw [List.map_append, List.map_append, List.map_singleton, List.map_singleton,
      List.foldl_concat, ih]
    simp only [hserve]

/-- A registry is what calls to the empty one have made it. -/
structure Recorded (log : List Exchange) (r : Indexed) : Prop where
  /-- The units are the new reservations, in their order. -/
  made : log.filterMap Exchange.made? =
    r.slots.toList.mapIdx fun unit slot => (unit, slot.key, slot.header)
  /-- The bodies are those of the successful completions. -/
  bodies (unit : Nat) (body : Body) : (r.slots[unit]?).bind (·.body) = some body ↔
    ∃ declaration references, (.complete unit declaration references, .completed) ∈ log ∧
      body = ⟨declaration, references.filter (· != unit)⟩

/-- The empty registry is what no calls have made. -/
private theorem recorded_empty : Recorded [] empty := by
  constructor <;> simp [empty]

/-- A call that leaves the registry as it is leaves no record. -/
theorem Recorded.skip (h : Recorded log r) (hmade : Exchange.made? (request, answer) = none)
    (hdone : answer ≠ .completed) : Recorded (log ++ [(request, answer)]) r := by
  refine ⟨?_, fun unit body => ?_⟩
  · rw [List.filterMap_append, h.made]
    simp [hmade]
  · rw [h.bodies unit body]
    simp [hdone.symm]

/-- If a registry is what calls have made it, so is the one after another call. -/
theorem Step.recorded (h : r.Step request answer r') (hlog : Recorded log r) :
    Recorded (log ++ [(request, answer)]) r' := by
  cases h with
  | known _ | taken _ _ _ | twice _ _ => exact hlog.skip rfl (by simp)
  | @new key header _ _ =>
    refine ⟨?_, fun unit body => ?_⟩
    · rw [List.filterMap_append, hlog.made, push, Array.toList_push, List.mapIdx_concat]
      rfl
    · have hsame : ((r.push key header).slots[unit]?).bind (·.body) =
          (r.slots[unit]?).bind (·.body) := by
        rw [push, Array.getElem?_push]
        split
        · rename_i hunit
          simp [hunit]
        · rfl
      rw [hsame, hlog.bodies unit body]
      simp
  | @done changed declaration references slot hslot hbody =>
    obtain ⟨hlt, -⟩ := Array.getElem?_eq_some_iff.mp hslot
    refine ⟨?_, fun unit body => ?_⟩
    · rw [List.filterMap_append, hlog.made, set, mapIdx_set hslot fun _ => by rfl]
      exact List.append_nil _
    · by_cases hunit : changed = unit
      · subst hunit
        have hnone : ∀ d rs, (.complete changed d rs, .completed) ∉ log := by
          intro d rs hmem
          have hsome := (hlog.bodies changed _).mpr ⟨d, rs, hmem, rfl⟩
          rw [hslot, Option.bind_some, hbody] at hsome
          cases hsome
        rw [set, Array.getElem?_setIfInBounds_self_of_lt hlt]
        simp [hnone, eq_comm]
      · rw [set, Array.getElem?_setIfInBounds_ne hunit, hlog.bodies unit body]
        simp [Ne.symm hunit]

/-- A registry is what calls to the empty one have made it. -/
theorem Served.recorded (h : empty.Served log r) : Recorded log r := by
  induction h with
  | start => exact recorded_empty
  | next before request hwithin ih =>
    exact ((before.inStep_and_keeps inStep_empty).1.step hwithin).recorded ih

/-- What is true of a registry after the calls of a log. -/
structure Consistent (log : List Exchange) (r : Indexed) : Prop where
  /-- The indexes relate the keys and the names to the numbers one to one. -/
  inStep : r.InStep
  /-- The units are the new reservations, numbered in their order. -/
  numbered : log.filterMap Exchange.made? =
    r.slots.toList.mapIdx fun unit slot => (unit, slot.key, slot.header)
  /-- No later call changes a key, a header, or a body that is known. -/
  kept {log' : List Exchange} {r' : Indexed} : r.Served log' r' → r.Keeps r'
  /-- Reserving a known key finds its unit, and the header does not matter. -/
  known {unit : Nat} {slot : Slot} (header : Header) : r.slots[unit]? = some slot →
    r.serve (.reserve slot.key header) = (r, .reserved ⟨unit, false⟩)
  /-- Reserving fails exactly when the key is new and the name belongs to another one. -/
  refused (key : String) (header : Header) (error : GenerateError) :
    (r.serve (.reserve key header)).2 = .failed error ↔
      (∀ slot ∈ r.slots, slot.key ≠ key) ∧ ∃ owner ∈ r.slots, owner.header.name = header.name ∧
        error = .ambiguousName header.name owner.key key
  /-- A new key with a new name is given the next number. -/
  fresh {key : String} {header : Header} : (∀ slot ∈ r.slots, slot.key ≠ key) →
    (∀ slot ∈ r.slots, slot.header.name ≠ header.name) →
    (r.serve (.reserve key header)).2 = .reserved ⟨r.slots.size, true⟩
  /-- A unit is completed if it lacks its body, and completing it fails otherwise. -/
  once {unit : Nat} {slot : Slot} (declaration : Declaration) (references : List UnitId) :
    r.slots[unit]? = some slot → (r.serve (.complete unit declaration references)).2 =
      match slot.body with
      | none => .completed
      | some _ => .failed (.completedTwice slot.header.name)
  /-- A call that fails leaves the registry and its indexes as they were. -/
  unchanged {request : Request} {error : GenerateError} : request.Within r.slots.size →
    (r.serve request).2 = .failed error → (r.serve request).1 = r
  /-- Without the indexes the calls have had the same answers and have led to the same units. -/
  unindexed : Registry.serveAll (log.map (·.1)) = (r.registry, log.map (·.2))
  /-- The next call, too, has the same answer then, and it uses no number that no unit has. -/
  next {request : Request} : request.Within r.slots.size → (r.serve request).2 ≠ .crashed ∧
    r.registry.serve request = ((r.serve request).1.registry, (r.serve request).2)
  /-- The units can be taken out exactly when all have their bodies. -/
  finished : (∃ units, r.registry.completed = .ok units) ↔ ∀ slot ∈ r.slots, slot.body ≠ none
  /-- The units are taken out as they stand in their slots, with their places as numbers. -/
  units {units : List Completed} : r.registry.completed = .ok units →
    units.length = r.slots.size ∧ ∀ (i : Nat) (unit : Completed), units[i]? = some unit ↔
      unit.id = i ∧ r.slots[i]? = some ⟨unit.key, unit.header, some unit.body⟩
  /-- The bodies are those that the units have been completed with, where a unit does not count
  among its own references. -/
  bodies (unit : Nat) (body : Body) : (r.slots[unit]?).bind (·.body) = some body ↔
    ∃ declaration references, (.complete unit declaration references, .completed) ∈ log ∧
      body = ⟨declaration, references.filter (· != unit)⟩

/-- **The registry is consistent.** After any calls on reserved units, including those that have
failed, the slots and both indexes are in step, the units are numbered in the order of their
reservations, and nothing that has been entered changes any more. -/
theorem Served.consistent (h : empty.Served log r) : Consistent log r := by
  have hin : r.InStep := (h.inStep_and_keeps inStep_empty).1
  refine
    { inStep := hin
      numbered := h.recorded.made
      kept := fun hmore => (hmore.inStep_and_keeps hin).2
      known := fun header hslot => ?_
      refused := fun _ _ _ => hin.refused
      fresh := fun hkey hname => ?_
      once := fun _ _ hslot => answer_complete hslot
      unchanged := fun hwithin hfailed => ?_
      unindexed := h.serveAll_eq
      next := fun hwithin =>
        ⟨(hin.step hwithin).answer_ne_crashed, (hin.step hwithin).registry_serve hin⟩
      finished := Registry.exists_completed_iff
      units := fun hunits =>
        ⟨Registry.length_of_completed hunits, fun _ _ => Registry.slots_of_completed hunits⟩
      bodies := h.recorded.bodies }
  · have hkey := (hin.byKey _ _).mpr (by rw [hslot, Option.map_some])
    exact (Step.known hkey).serve_eq
  · have hstep := Step.new (hin.byKey.lookup_eq_none_iff.mpr hkey)
      (hin.byName.lookup_eq_none_iff.mpr hname)
    rw [hstep.serve_eq]
  · have hstep := hin.step hwithin
    rw [hfailed] at hstep
    exact hstep.eq_of_failed

/-- Two types with one name: the second one is refused, and so is a second declaration of the
first one. -/
theorem Served.consistent_orders : ∃ log r, empty.Served log r ∧ Consistent log r ∧
    log.map (·.2) = [.reserved ⟨0, true⟩, .reserved ⟨0, false⟩,
      .failed (.ambiguousName "Order" "shop.Order" "mall.Order"), .reserved ⟨1, true⟩, .completed,
      .failed (.completedTwice "Order")] ∧
    r.slots.toList.map (·.body) =
      [some ⟨.alias "Order" [] (.keyword .string), [1]⟩, none] := by
  have h : empty.Served _ _ := Served.start
    |>.next (.reserve "shop.Order" ⟨"Order", some "shop", []⟩) trivial
    |>.next (.reserve "shop.Order" ⟨"Purchase", none, []⟩) trivial
    |>.next (.reserve "mall.Order" ⟨"Order", some "mall", []⟩) trivial
    |>.next (.reserve "shop.Item" ⟨"Item", some "shop", []⟩) trivial
    |>.next (.complete 0 (.alias "Order" [] (.keyword .string)) [0, 1]) (by decide)
    |>.next (.complete 0 (.alias "Order" [] (.keyword .number)) []) (by decide)
  exact ⟨_, _, h, h.consistent, by decide, by decide⟩

end Indexed

end Declgen.Units
