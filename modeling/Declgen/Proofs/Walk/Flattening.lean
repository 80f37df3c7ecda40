import Declgen.Proofs.Alike.Members
import Declgen.Proofs.EraseDups
import Declgen.Proofs.Walk.Growth
import Declgen.Proofs.Walk.Naming
import Declgen.Walk.Build

/-!
# Flattening chains of bases

The members of a record are those of all records on its chain of bases, each name once. They stand
in the order in which the names are declared from the root of the chain down, and for each name the
declaration furthest down counts. In its type all parameters are replaced at once by what they stand
for at its place on the chain. Nothing is asked of the model here, so types may be missing or
contain themselves, and chains may run in a circle.
-/

namespace Declgen.Walk

open Model TypeScript Declgen.Units

/-! ### Replacing parameters at once -/

/-- A type of a graph is another one in which all parameters with a binding have been replaced by
what is bound to them. What has been put in is not looked at again. -/
inductive Rewrites (g : Graph) (bindings : Bindings) : TypeId → TypeId → Prop
  /-- A parameter becomes what is bound to it. -/
  | bound {id id' : TypeId} {name : String} (hget : g.get id = .ok (.parameter name))
    (hlookup : bindings.lookup name = some id') : Rewrites g bindings id id'
  /-- A parameter without a binding stays. -/
  | free {id : TypeId} {name : String} (hget : g.get id = .ok (.parameter name))
    (hlookup : bindings.lookup name = none) : Rewrites g bindings id id
  /-- A type that is not put together from others stays. -/
  | plain {id : TypeId} {d : Descriptor} (hget : g.get id = .ok d) (hplain : d.isComposite = false)
    (hparameter : ∀ name, d ≠ .parameter name) : Rewrites g bindings id id
  /-- In a type that may be null the type is replaced. -/
  | nullable {id id' inner inner' : TypeId} (hget : g.get id = .ok (.nullable inner))
    (hget' : g.get id' = .ok (.nullable inner')) (h : Rewrites g bindings inner inner') :
    Rewrites g bindings id id'
  /-- In a list the type of the elements is. -/
  | array {id id' element element' : TypeId} (hget : g.get id = .ok (.array element))
    (hget' : g.get id' = .ok (.array element')) (h : Rewrites g bindings element element') :
    Rewrites g bindings id id'
  /-- In a map the types of keys and values are. -/
  | dictionary {id id' key key' value value' : TypeId}
    (hget : g.get id = .ok (.dictionary key value))
    (hget' : g.get id' = .ok (.dictionary key' value')) (hkey : Rewrites g bindings key key')
    (hvalue : Rewrites g bindings value value') : Rewrites g bindings id id'
  /-- In an instantiation the arguments are. -/
  | instantiation {id id' definition : TypeId} {arguments arguments' : List TypeId}
    (hget : g.get id = .ok (.instantiation definition arguments))
    (hget' : g.get id' = .ok (.instantiation definition arguments'))
    (hlength : arguments.length = arguments'.length)
    (h : ∀ argument argument', (argument, argument') ∈ arguments.zip arguments' →
      Rewrites g bindings argument argument') : Rewrites g bindings id id'

/-- What becomes of a type under bindings. Where there are none it is not even looked at. -/
def Rewritten (g : Graph) (bindings : Bindings) (id id' : TypeId) : Prop :=
  bindings = [] ∧ id' = id ∨ bindings ≠ [] ∧ Rewrites g bindings id id'

section Replacing

variable {g g' : Graph} {bindings : Bindings} {id id' : TypeId}

/-- A replacement stays one in a larger graph. -/
theorem Rewrites.extends (h : Rewrites g bindings id id') (hext : g.Extends g') :
    Rewrites g' bindings id id' := by
  induction h with
  | bound hget hlookup => exact .bound (hext.get hget) hlookup
  | free hget hlookup => exact .free (hext.get hget) hlookup
  | plain hget hplain hparameter => exact .plain (hext.get hget) hplain hparameter
  | nullable hget hget' _ ih => exact .nullable (hext.get hget) (hext.get hget') ih
  | array hget hget' _ ih => exact .array (hext.get hget) (hext.get hget') ih
  | dictionary hget hget' _ _ ihkey ihvalue =>
    exact .dictionary (hext.get hget) (hext.get hget') ihkey ihvalue
  | instantiation hget hget' hlength _ ih =>
    exact .instantiation (hext.get hget) (hext.get hget') hlength ih

/-- What becomes of a type stays the same in a larger graph. -/
theorem Rewritten.extends (h : Rewritten g bindings id id') (hext : g.Extends g') :
    Rewritten g' bindings id id' :=
  h.imp_right fun h => ⟨h.1, h.2.extends hext⟩

/-- A type that has been rewritten is there. -/
theorem Rewrites.lt_size (h : Rewrites g bindings id id') : (id : Nat) < g.size := by
  cases h <;> exact Graph.get_lt ‹_›

/-- What becomes of several types stays the same in a larger graph. -/
theorem all_extends {ids ids' : List TypeId}
    (h : List.Forall₂ (Rewritten g bindings) ids ids') (hext : g.Extends g') :
    List.Forall₂ (Rewritten g' bindings) ids ids' :=
  h.imp fun _ _ h => h.extends hext

/-- Where the parts of a type have been rewritten, so has the type. -/
theorem keepOrAdd_rewrites {g₁ : Graph} {unchanged : Bool} {d d' : Descriptor}
    (hext : g.Extends g₁) (hget : g.get id = .ok d) (hkeep : unchanged = true → d = d')
    (hcomposite : d'.isComposite = true)
    (h : ∀ g' id', g₁.Extends g' → g'.get id = .ok d → g'.get id' = .ok d' →
      Rewrites g' bindings id id') :
    Outcome (fun r => g.Extends r.2 ∧ Rewrites r.2 bindings id r.1) (fun _ => True)
      ((keepOrAdd id unchanged d').run g₁) := by
  have hget₁ := hext.get hget
  obtain ⟨r, hrun, hext', hget', -⟩ :=
    Graph.keepOrAdd_run (fun hunchanged => hkeep hunchanged ▸ hget₁) hcomposite
  rw [hrun]
  exact ⟨hext.trans hext', h r.2 r.1 hext' (hext'.get hget₁) hget'⟩

/-- Rewriting one type after the other rewrites all of them. -/
theorem mapM_rewrites {f : TypeId → Growing TypeId}
    (hf : ∀ id g, Outcome (fun r => g.Extends r.2 ∧ Rewrites r.2 bindings id r.1) (fun _ => True)
      ((f id).run g)) (ids : List TypeId) (g : Graph) :
    Outcome (fun r => g.Extends r.2 ∧ List.Forall₂ (Rewrites r.2 bindings) ids r.1)
      (fun _ => True) ((ids.mapM f).run g) := by
  induction ids generalizing g with
  | nil => exact ⟨.refl g, .nil⟩
  | cons id ids ih =>
    rw [List.mapM_cons]
    refine (hf id g).run_bind fun id' g₁ h => ?_
    obtain ⟨hext₁, hid⟩ := h
    refine (ih g₁).run_bind fun ids' g₂ h => ?_
    obtain ⟨hext₂, hids⟩ := h
    exact ⟨hext₁.trans hext₂, .cons (hid.extends hext₂) hids⟩

/-- Replacing parameters rewrites a type. -/
theorem substituteWithin_rewrites (depth : Nat) (above : List TypeId) (id : TypeId) (g : Graph) :
    Outcome (fun r => g.Extends r.2 ∧ Rewrites r.2 bindings id r.1) (fun _ => True)
      ((substituteWithin bindings depth above id).run g) := by
  induction depth generalizing above id g with
  | zero => trivial
  | succ depth ih =>
    rw [substituteWithin]
    split
    · trivial
    simp only [StateT.run_bind, StateT.run_get, pure_bind]
    cases hget : g.get id with
    | error e => trivial
    | ok d =>
      change Outcome _ _ (StateT.run _ g)
      cases d with
      | primitive kind => exact ⟨.refl g, .plain hget rfl (by simp)⟩
      | enum e => exact ⟨.refl g, .plain hget rfl (by simp)⟩
      | complex c => exact ⟨.refl g, .plain hget rfl (by simp)⟩
      | parameter name =>
        refine ⟨.refl g, ?_⟩
        cases hlookup : bindings.lookup name with
        | none =>
          simp only [Option.getD_none]
          exact .free hget hlookup
        | some id' =>
          simp only [Option.getD_some]
          exact .bound hget hlookup
      | nullable inner =>
        refine (ih _ inner g).run_bind fun inner' g₁ h => ?_
        obtain ⟨hext, hinner⟩ := h
        refine keepOrAdd_rewrites hext hget (fun heq => by rw [eq_of_beq heq]) rfl
          fun g' id' hext' hget hget' => ?_
        exact .nullable hget hget' (hinner.extends hext')
      | array element =>
        refine (ih _ element g).run_bind fun element' g₁ h => ?_
        obtain ⟨hext, helement⟩ := h
        refine keepOrAdd_rewrites hext hget (fun heq => by rw [eq_of_beq heq]) rfl
          fun g' id' hext' hget hget' => ?_
        exact .array hget hget' (helement.extends hext')
      | dictionary key value =>
        refine (ih _ key g).run_bind fun key' g₁ h => ?_
        obtain ⟨hext₁, hkey⟩ := h
        refine (ih _ value g₁).run_bind fun value' g₂ h => ?_
        obtain ⟨hext₂, hvalue⟩ := h
        have hkeep (heq : (key' == key && value' == value) = true) :
            Descriptor.dictionary key value = .dictionary key' value' := by
          rw [Bool.and_eq_true] at heq
          rw [eq_of_beq heq.1, eq_of_beq heq.2]
        refine keepOrAdd_rewrites (hext₁.trans hext₂) hget hkeep rfl
          fun g' id' hext' hget hget' => ?_
        exact .dictionary hget hget' (hkey.extends (hext₂.trans hext')) (hvalue.extends hext')
      | instantiation definition arguments =>
        refine (mapM_rewrites (ih (id :: above)) arguments g).run_bind fun arguments' g₁ h => ?_
        obtain ⟨hext, harguments⟩ := h
        obtain ⟨hlength, hzip⟩ := List.forall₂_iff_zip.mp harguments
        refine keepOrAdd_rewrites hext hget (fun heq => by rw [eq_of_beq heq]) rfl
          fun g' id' hext' hget hget' => ?_
        exact .instantiation hget hget' hlength fun _ _ hmem => (hzip hmem).extends hext'

/-- Replacing parameters gives what becomes of the type. -/
theorem substitute_rewritten (bindings : Bindings) (id : TypeId) (g : Graph) :
    Outcome (fun r => g.Extends r.2 ∧ Rewritten r.2 bindings id r.1) (fun _ => True)
      ((substitute bindings id).run g) := by
  rw [substitute]
  by_cases hempty : bindings.isEmpty = true
  · rw [if_pos hempty]
    exact ⟨.refl g, .inl ⟨List.isEmpty_iff.mp hempty, rfl⟩⟩
  · rw [if_neg hempty]
    refine (substituteWithin_rewrites _ [] id g).weaken fun r hr => ?_
    exact ⟨hr.1, .inr ⟨fun h => hempty (List.isEmpty_iff.mpr h), hr.2⟩⟩

end Replacing

/-! ### Chains of bases -/

/-- A type that names a record under some bindings, with what the parameters of the record stand
for: where the record is named directly the bindings stay, and an instantiation binds the parameters
to its arguments, which have been rewritten. -/
inductive Stands (g : Graph) (bindings : Bindings) (id : TypeId) : ComplexType → Bindings → Prop
  /-- The record itself. -/
  | record {c : ComplexType} (hget : g.get id = .ok (.complex c)) : Stands g bindings id c bindings
  /-- An instantiation of the record. -/
  | instantiation {c : ComplexType} {definition : TypeId} {arguments arguments' : List TypeId}
    (hget : g.get id = .ok (.instantiation definition arguments))
    (hrecord : g.model.get definition = .ok (.complex c))
    (hlength : c.typeParams.length = arguments.length)
    (harguments : List.Forall₂ (Rewritten g bindings) arguments arguments') :
    Stands g bindings id c (c.typeParams.zip arguments').reverse

/-- A record on a chain of bases. -/
structure Level where
  /-- The type that names it. -/
  id : TypeId
  /-- The record. -/
  record : ComplexType
  /-- What its parameters stand for. -/
  bindings : Bindings

/-- The chain of bases that starts with a type under some bindings, from the record furthest down
to the root. -/
inductive Lineage (g : Graph) : Bindings → TypeId → List Level → Prop
  /-- The root has no base. -/
  | root {bindings bindings' : Bindings} {id : TypeId} {c : ComplexType}
    (hstands : Stands g bindings id c bindings') (hbase : c.base = none) :
    Lineage g bindings id [⟨id, c, bindings'⟩]
  /-- The base of any other record goes on with what its parameters stand for. -/
  | derived {bindings bindings' : Bindings} {id base : TypeId} {c : ComplexType}
    {levels : List Level} (hstands : Stands g bindings id c bindings') (hbase : c.base = some base)
    (rest : Lineage g bindings' base levels) :
    Lineage g bindings id (⟨id, c, bindings'⟩ :: levels)

/-- The declaration of a name that is furthest down, with its place on the chain. -/
def lastDeclared (levels : List Level) (name : String) : Option (Level × Member) :=
  levels.findSome? fun level =>
    (level.record.members.find? fun m => m.name == name).map fun m => (level, m)

/-- The names that the records on a chain declare, from the root down. -/
def declaredNames (levels : List Level) : List String :=
  levels.reverse.flatMap fun level => level.record.members.map (·.name)

/-- The members that all records on a chain have together. -/
structure Flattened (g : Graph) (levels : List Level) (members : List Member) : Prop where
  /-- No record declares a name twice. -/
  distinct : ∀ level ∈ levels, (level.record.members.map (·.name)).Nodup
  /-- Each name occurs once, in the order in which the names are declared from the root down. -/
  names : members.map (·.name) = (declaredNames levels).eraseDups
  /-- A member is the declaration of its name that is furthest down, with its type rewritten. -/
  entry : ∀ m ∈ members, ∃ level declared, lastDeclared levels m.name = some (level, declared) ∧
    m = { declared with type := m.type } ∧ Rewritten g level.bindings declared.type m.type

section Chains

variable {g g' : Graph} {bindings bindings' : Bindings} {id : TypeId} {c : ComplexType}
  {levels : List Level}

/-- A type names the same record in a larger graph. -/
theorem Stands.extends (h : Stands g bindings id c bindings') (hext : g.Extends g') :
    Stands g' bindings id c bindings' := by
  cases h with
  | record hget => exact .record (hext.get hget)
  | instantiation hget hrecord hlength harguments =>
    exact .instantiation (hext.get hget) (hext.model ▸ hrecord) hlength
      (all_extends harguments hext)

/-- A chain of bases stays one in a larger graph. -/
theorem Lineage.extends (h : Lineage g bindings id levels) (hext : g.Extends g') :
    Lineage g' bindings id levels := by
  induction h with
  | root hstands hbase => exact .root (hstands.extends hext) hbase
  | derived hstands hbase _ ih => exact .derived (hstands.extends hext) hbase ih

/-- The members of a chain stay the same in a larger graph. -/
theorem Flattened.extends {members : List Member} (h : Flattened g levels members)
    (hext : g.Extends g') : Flattened g' levels members where
  distinct := h.distinct
  names := h.names
  entry m hm := by
    obtain ⟨level, declared, hlast, heq, hrewritten⟩ := h.entry m hm
    exact ⟨level, declared, hlast, heq, hrewritten.extends hext⟩

/-- The record that a type names is the one that is meant. -/
theorem Stands.record? (h : Stands g bindings id c bindings') : g.record? id = some c := by
  cases h with
  | record hget => exact Graph.record?_complex hget
  | instantiation hget hrecord => exact Graph.record?_instantiation hget hrecord

/-- A chain with a root has an end. -/
theorem Lineage.acc (h : Lineage g bindings id levels) : Acc g.Base id := by
  induction h with
  | @root bindings bindings' id c hstands hbase =>
    refine .intro id fun base hbase' => ?_
    obtain ⟨c', hrecord, hbase'⟩ := hbase'
    rw [hstands.record?] at hrecord
    cases hrecord
    rw [hbase] at hbase'
    cases hbase'
  | @derived bindings bindings' id base c levels hstands hbase _ ih =>
    refine .intro id fun other hother => ?_
    obtain ⟨c', hrecord, hother⟩ := hother
    rw [hstands.record?] at hrecord
    cases hrecord
    rw [hbase, Option.some.injEq] at hother
    exact hother ▸ ih

/-! ### Own members -/

/-- Binding parameters binds each to its argument, which has been rewritten. -/
theorem bindArguments_rewritten {outer : Bindings} (parameters : List String)
    (arguments : List TypeId) (bound : Bindings) (g : Graph)
    (hlength : parameters.length = arguments.length) :
    Outcome (fun r => g.Extends r.2 ∧ ∃ arguments',
        List.Forall₂ (Rewritten r.2 outer) arguments arguments' ∧
        r.1 = (parameters.zip arguments').reverse ++ bound) (fun _ => True)
      ((bindArguments outer parameters arguments bound).run g) := by
  induction parameters generalizing arguments bound g with
  | nil =>
    obtain rfl := List.length_eq_zero_iff.mp hlength.symm
    exact ⟨.refl g, [], .nil, rfl⟩
  | cons parameter parameters ih =>
    cases arguments with
    | nil => cases hlength
    | cons argument arguments =>
      rw [bindArguments]
      refine (substitute_rewritten outer argument g).run_bind fun argument' g₁ h => ?_
      obtain ⟨hext₁, hargument⟩ := h
      refine (ih arguments _ g₁ (by simpa using hlength)).weaken fun r h => ?_
      obtain ⟨hext₂, arguments', harguments, hbound⟩ := h
      refine ⟨hext₁.trans hext₂, argument' :: arguments',
        .cons (hargument.extends hext₂) harguments, ?_⟩
      rw [hbound]
      simp

/-- Reading a base gives the record that it names and what the parameters stand for. -/
theorem baseRecord_stands (bindings : Bindings) (id : TypeId) (g : Graph) :
    Outcome (fun r => g.Extends r.2 ∧ Stands r.2 bindings id r.1.1 r.1.2) (fun _ => True)
      ((baseRecord bindings id).run g) := by
  rw [baseRecord]
  simp only [StateT.run_bind, StateT.run_get, pure_bind]
  cases hget : g.get id with
  | error e => trivial
  | ok d =>
    change Outcome _ _ (StateT.run _ g)
    cases d with
    | complex c => exact ⟨.refl g, .record hget⟩
    | instantiation definition arguments =>
      have hdefinition : Outcome (fun c => g.model.get definition = .ok (.complex c) ∧
          c.typeParams.length = arguments.length) (fun _ => True)
          (g.definition definition arguments.length) := by
        cases hc : g.definition definition arguments.length with
        | error e => trivial
        | ok c => exact Graph.get_of_definition hc
      refine hdefinition.lift_bind fun c hc => ?_
      obtain ⟨hrecord, hlength⟩ := hc
      refine (bindArguments_rewritten c.typeParams arguments [] g hlength).run_bind
        fun bindings' g₁ h => ?_
      obtain ⟨hext, arguments', harguments, rfl⟩ := h
      rw [List.append_nil]
      exact ⟨hext, .instantiation (hext.get hget) (hext.model ▸ hrecord) hlength harguments⟩
    | _ => trivial

end Chains

section Placing

variable {m other : Member} {members own inherited : List Member}

/-- Setting a member adds its name last, unless it is there. -/
theorem map_name_setMember (m : Member) (members : List Member) :
    (setMember m members).map (·.name) =
      if m.name ∈ members.map (·.name) then members.map (·.name)
      else members.map (·.name) ++ [m.name] := by
  induction members with
  | nil => simp [setMember]
  | cons first members ih =>
    rw [setMember]
    by_cases hname : first.name = m.name
    · simp [hname]
    · rw [if_neg hname, List.map_cons, ih, List.map_cons]
      by_cases hmem : m.name ∈ members.map (·.name)
      · rw [if_pos hmem, if_pos (List.mem_cons_of_mem _ hmem)]
      · rw [if_neg hmem, if_neg (by simp_all [eq_comm])]
        rfl

/-- What stands in the list after a member has been put into its place. -/
theorem mem_setMember (hnodup : (members.map (·.name)).Nodup) (h : other ∈ setMember m members) :
    other = m ∨ other ∈ members ∧ other.name ≠ m.name := by
  induction members with
  | nil => exact .inl (List.mem_singleton.mp h)
  | cons first members ih =>
    rw [List.map_cons, List.nodup_cons] at hnodup
    rw [setMember] at h
    by_cases hname : first.name = m.name
    · rw [if_pos hname] at h
      rcases List.mem_cons.mp h with rfl | h
      · exact .inl rfl
      · refine .inr ⟨List.mem_cons_of_mem _ h, fun heq => hnodup.1 ?_⟩
        rw [hname, ← heq]
        exact List.mem_map_of_mem h
    · rw [if_neg hname] at h
      rcases List.mem_cons.mp h with rfl | h
      · exact .inr ⟨List.mem_cons_self, hname⟩
      · exact (ih hnodup.2 h).imp_right fun h => ⟨List.mem_cons_of_mem _ h.1, h.2⟩

/-- Members put into their places one after the other. -/
def placeAll (own inherited : List Member) : List Member :=
  own.foldl (fun members m => setMember m members) inherited

/-- The names that are there after members have been put into their places, in order. -/
theorem map_name_placeAll (hnodup : (inherited.map (·.name)).Nodup) :
    (placeAll own inherited).map (·.name) =
      (inherited.map (·.name) ++ own.map (·.name)).eraseDups := by
  induction own generalizing inherited with
  | nil => simp [placeAll, eraseDups_of_nodup hnodup]
  | cons m own ih =>
    have hset : (setMember m inherited).map (·.name) =
        (inherited.map (·.name) ++ [m.name]).eraseDups := by
      rw [map_name_setMember, eraseDups_concat, eraseDups_of_nodup hnodup]
    have hnodup' : ((setMember m inherited).map (·.name)).Nodup := hset ▸ nodup_eraseDups _
    have hrest := ih hnodup'
    rw [hset, eraseDups_eraseDups_append, List.append_assoc] at hrest
    exact hrest

/-- Whatever is there then is one of these members, or was there with a name of its own. -/
theorem mem_placeAll (hnodup : (inherited.map (·.name)).Nodup)
    (h : other ∈ placeAll own inherited) :
    other ∈ own ∨ other ∈ inherited ∧ other.name ∉ own.map (·.name) := by
  induction own generalizing inherited with
  | nil => exact .inr ⟨h, by simp⟩
  | cons m own ih =>
    have hset : ((setMember m inherited).map (·.name)).Nodup := by
      rw [map_name_setMember]
      split
      · exact hnodup
      · refine List.nodup_append.mpr ⟨hnodup, by simp, fun a ha b hb => ?_⟩
        rintro rfl
        exact ‹m.name ∉ _› (List.mem_singleton.mp hb ▸ ha)
    rcases ih hset h with hown | ⟨hmem, hname⟩
    · exact .inl (List.mem_cons_of_mem _ hown)
    · rcases mem_setMember hnodup hmem with rfl | ⟨hold, hne⟩
      · exact .inl List.mem_cons_self
      · refine .inr ⟨hold, fun hmem => ?_⟩
        rcases List.mem_cons.mp (List.map_cons ▸ hmem) with heq | hmem
        · exact hne heq
        · exact hname hmem

end Placing

/-! ### Gathering -/

section Gathering

variable {g g' : Graph} {bindings bindings' : Bindings} {id : TypeId} {c : ComplexType}
  {levels : List Level} {m m' : Member} {own own' inherited members : List Member}

/-- A member is another one with its type rewritten. -/
def MemberRewritten (g : Graph) (bindings : Bindings) (m m' : Member) : Prop :=
  m' = { m with type := m'.type } ∧ Rewritten g bindings m.type m'.type

/-- Rewriting keeps the name of a member. -/
theorem MemberRewritten.name_eq (h : MemberRewritten g bindings m m') : m.name = m'.name := by
  rw [h.1]

/-- Adding own members puts them, rewritten, into their places, and no name occurs twice. -/
theorem addOwnMembers_placed (owner : TypeId) (bindings : Bindings) (seen : List String)
    (own inherited : List Member) (g : Graph) :
    Outcome (fun r => g.Extends r.2 ∧ (own.map (·.name)).Nodup ∧ (∀ m ∈ own, m.name ∉ seen) ∧
        ∃ own', List.Forall₂ (MemberRewritten r.2 bindings) own own' ∧
          r.1 = placeAll own' inherited) (fun _ => True)
      ((addOwnMembers owner bindings seen own inherited).run g) := by
  induction own generalizing seen inherited g with
  | nil => exact ⟨.refl g, .nil, by simp, [], .nil, rfl⟩
  | cons m own ih =>
    rw [addOwnMembers]
    by_cases hseen : seen.contains m.name = true
    · rw [if_pos hseen]
      trivial
    rw [if_neg hseen]
    refine (substitute_rewritten bindings m.type g).run_bind fun type g₁ h => ?_
    obtain ⟨hext₁, htype⟩ := h
    refine (ih _ _ g₁).weaken fun r h => ?_
    obtain ⟨hext₂, hnodup, hnew, own', hown, hmembers⟩ := h
    have hfirst : m.name ∉ own.map (·.name) := by
      intro hmem
      obtain ⟨other, hother, heq⟩ := List.mem_map.mp hmem
      exact hnew other hother (heq ▸ List.mem_cons_self)
    refine ⟨hext₁.trans hext₂, List.nodup_cons.mpr ⟨hfirst, hnodup⟩, fun other hother => ?_,
      { m with type := type } :: own', .cons ⟨rfl, htype.extends hext₂⟩ hown, hmembers⟩
    rcases List.mem_cons.mp hother with rfl | hother
    · simpa using hseen
    · exact fun hmem => hnew other hother (List.mem_cons_of_mem _ hmem)

/-- The members of a root are its own ones. -/
theorem Flattened.nil : Flattened g [] [] where
  distinct := by simp
  names := rfl
  entry := by simp

/-- A record adds its own members to those of the chain above it. -/
theorem Flattened.cons (h : Flattened g levels inherited)
    (hnodup : (c.members.map (·.name)).Nodup)
    (hown : List.Forall₂ (MemberRewritten g bindings) c.members own) :
    Flattened g (⟨id, c, bindings⟩ :: levels) (placeAll own inherited) := by
  have hnames : own.map (·.name) = c.members.map (·.name) :=
    (map_eq_map_of_forall₂ (hown.imp fun _ _ h => h.name_eq)).symm
  have hinherited : (inherited.map (·.name)).Nodup := h.names ▸ nodup_eraseDups _
  refine ⟨List.forall_mem_cons.mpr ⟨hnodup, h.distinct⟩, ?_, fun m hm => ?_⟩
  · rw [map_name_placeAll hinherited, h.names, eraseDups_eraseDups_append, hnames]
    simp [declaredNames]
  · have hlast (name : String) : lastDeclared (⟨id, c, bindings⟩ :: levels) name =
        ((c.members.find? fun m => m.name == name).map fun m => (⟨id, c, bindings⟩, m)).or
          (lastDeclared levels name) := by
      rw [lastDeclared, List.findSome?_cons]
      cases c.members.find? fun m => m.name == name <;> rfl
    rcases mem_placeAll hinherited hm with hmem | ⟨hmem, hname⟩
    · obtain ⟨declared, hdeclared, hrewritten⟩ := exists_mem_of_forall₂ hown.flip hmem
      have hfind : c.members.find? (fun other => other.name == m.name) = some declared := by
        rw [← MemberRewritten.name_eq hrewritten]
        exact find?_of_nodup hnodup hdeclared
      refine ⟨⟨id, c, bindings⟩, declared, ?_, hrewritten⟩
      rw [hlast, hfind]
      rfl
    · obtain ⟨level, declared, hdeclared, hrest⟩ := h.entry m hmem
      have hfind : c.members.find? (fun other => other.name == m.name) = none := by
        rw [List.find?_eq_none]
        intro other hother heq
        refine hname ?_
        rw [hnames, ← eq_of_beq heq]
        exact List.mem_map_of_mem hother
      refine ⟨level, declared, ?_, hrest⟩
      rw [hlast, hfind]
      exact hdeclared

/-- Where gathering the members of a record succeeds, its chain of bases has a root, and the members
are those of the whole chain. -/
theorem membersWithin_flattened (depth : Nat) (below : List TypeId) (bindings : Bindings)
    (id : TypeId) (g : Graph) :
    Outcome (fun r => g.Extends r.2 ∧ ∃ levels, Lineage r.2 bindings id levels ∧
        Flattened r.2 levels r.1) (fun _ => True)
      ((membersWithin depth below bindings id).run g) := by
  induction depth generalizing below bindings id g with
  | zero => trivial
  | succ depth ih =>
    rw [membersWithin]
    split
    · trivial
    refine (baseRecord_stands bindings id g).run_bind fun r g₁ h => ?_
    obtain ⟨c, bindings'⟩ := r
    obtain ⟨hext₁, hstands⟩ := h
    dsimp only at hstands ⊢
    cases hbase : c.base with
    | none =>
      refine (addOwnMembers_placed id bindings' [] c.members [] g₁).weaken fun r h => ?_
      obtain ⟨hext₂, hnodup, -, own, hown, hmembers⟩ := h
      rw [hmembers]
      exact ⟨hext₁.trans hext₂, _, .root (hstands.extends hext₂) hbase,
        Flattened.nil.cons hnodup hown⟩
    | some base =>
      refine (ih _ bindings' base g₁).run_bind fun inherited g₂ h => ?_
      obtain ⟨hext₂, levels, hlineage, hflattened⟩ := h
      refine (addOwnMembers_placed id bindings' [] c.members inherited g₂).weaken fun r h => ?_
      obtain ⟨hext₃, hnodup, -, own, hown, hmembers⟩ := h
      rw [hmembers]
      exact ⟨hext₁.trans (hext₂.trans hext₃), _,
        .derived (hstands.extends (hext₂.trans hext₃)) hbase (hlineage.extends hext₃),
        (hflattened.extends hext₃).cons hnodup hown⟩

/-- The members of a type are those that the records on its chain have together. -/
theorem membersOf_flattened (id : TypeId) (g : Graph) :
    Outcome (fun r => g.Extends r.2 ∧ ∃ levels, Lineage r.2 [] id levels ∧
        Flattened r.2 levels r.1) (fun _ => True) ((membersOf id).run g) :=
  membersWithin_flattened _ [] [] id g

end Gathering

/-! ### Chains that run in a circle -/

/-- The chain of bases of a type comes back to a type that it has visited. -/
def Revisits (g : Graph) (id : TypeId) : Prop :=
  ∃ j, Relation.ReflTransGen g.Base j id ∧ Relation.TransGen g.Base j j

/-- The type that the members of a base are asked for cannot be read as a record. -/
def BadBase (g : Graph) (id : TypeId) (e : GenerateError) : Prop :=
  ∃ bindings j g', g.Extends g' ∧ Relation.ReflTransGen g'.Base j id ∧
    (baseRecord bindings j).run g' = .error e

section Circles

variable {g g' : Graph} {id : TypeId}

/-- What a record extends stays the same in a larger graph. -/
theorem base_extends {base : TypeId} (h : g.Extends g') (hbase : g.Base base id) :
    g'.Base base id := by
  obtain ⟨c, hrecord, hbase⟩ := hbase
  cases hget : g.get id with
  | error e =>
    rw [Graph.record?, hget] at hrecord
    cases hrecord
  | ok d => exact ⟨c, (h.record?_eq hget).trans hrecord, hbase⟩

/-- A chain that comes back to a type has no end. -/
theorem Revisits.not_acc (h : Revisits g id) : ¬ Acc g.Base id := by
  obtain ⟨j, hreach, hcircle⟩ := h
  intro hend
  induction hreach with
  | refl => exact not_transGen_self hend hcircle
  | tail _ hbase ih => exact ih (hend.inv hbase)

/-- Members of a chain without an end cannot be gathered. -/
theorem membersWithin_fails (depth : Nat) (below : List TypeId) (bindings : Bindings) {g : Graph}
    (hend : ¬ Acc g.Base id) :
    Outcome (fun _ => False)
      (fun e => (∃ label, e = .unsupported label .cyclicInheritance) ∨ BadBase g id e)
      ((membersWithin depth below bindings id).run g) := by
  induction depth generalizing below bindings id g with
  | zero => exact .inl ⟨_, rfl⟩
  | succ depth ih =>
    rw [membersWithin]
    split
    · exact .inl ⟨_, rfl⟩
    rw [StateT.run_bind]
    cases hrun : (baseRecord bindings id).run g with
    | error e => exact .inr ⟨bindings, id, g, .refl g, .refl, hrun⟩
    | ok r =>
      obtain ⟨⟨c, bindings'⟩, g₁⟩ := r
      obtain ⟨hext, hstands⟩ := (baseRecord_stands bindings id g).result hrun
      dsimp only at hstands
      -- The chain has no end in the larger graph either.
      have hend₁ : ¬ Acc g₁.Base id := fun h => hend (Subrelation.accessible (base_extends hext) h)
      have hbaseOf {base : TypeId} (h : g₁.Base base id) : c.base = some base := by
        obtain ⟨c', hrecord, hbase⟩ := h
        cases hstands.record?.symm.trans hrecord
        exact hbase
      rw [ok_bind]
      dsimp only
      cases hbase : c.base with
      | none =>
        refine absurd (.intro id fun base h => ?_) hend₁
        rw [hbaseOf h] at hbase
        cases hbase
      | some base =>
        have hend₂ : ¬ Acc g₁.Base base := by
          refine fun h => hend₁ (.intro id fun other hother => ?_)
          cases hbase.symm.trans (hbaseOf hother)
          exact h
        have hchain : g₁.Base base id := ⟨c, hstands.record?, hbase⟩
        have hbad (e : GenerateError) (h : BadBase g₁ base e) : BadBase g id e := by
          obtain ⟨bindings'', j, g', hext', hreach, hfail⟩ := h
          exact ⟨bindings'', j, g', hext.trans hext',
            hreach.tail (base_extends hext' hchain), hfail⟩
        exact ((ih _ bindings' hend₂).mono (fun _ h => h) fun e h =>
          h.imp_right (hbad e)).run_bind fun _ _ h => False.elim h

end Circles

/-! ### Fields -/

/-- The field of a member: what its type is converted to, with the progress before and after. -/
def FieldOf (ctx : Context) (m : Member) (p : Progress) (field : TypeScript.Field Expr)
    (p' : Progress) : Prop :=
  ∃ type, (convert ctx m.type).run p = .ok (type, p') ∧
    field = ⟨memberField ctx.options.fields m.name, if m.nullable then type.nullable else type,
      m.optional, m.doc⟩

/-- Converting a member gives a field if and only if this is the field of the member. -/
theorem convertMember_eq_ok_iff {ctx : Context} {m : Member} {p p' : Progress}
    {field : TypeScript.Field Expr} :
    (convertMember ctx m).run p = .ok (field, p') ↔ FieldOf ctx m p field p' := by
  rw [convertMember, StateT.run_bind, FieldOf]
  cases (convert ctx m.type).run p with
  | error e => simp [bind, Except.bind]
  | ok r =>
    obtain ⟨type, p₁⟩ := r
    rw [ok_bind]
    change Except.ok _ = Except.ok _ ↔ _
    simp only [Except.ok.injEq, Prod.mk.injEq]
    constructor
    · rintro ⟨rfl, rfl⟩
      exact ⟨type, ⟨rfl, rfl⟩, rfl⟩
    · rintro ⟨type', ⟨rfl, rfl⟩, rfl⟩
      exact ⟨rfl, rfl⟩

/-- Members are converted exactly if each of them has a field, one after the other, and the names of
the fields are all different, also from those that are taken. -/
theorem convertMembers_eq_ok_iff {ctx : Context} {unit : String} {taken : List (String × String)}
    {members : List Member} {p p' : Progress} {fields : List (TypeScript.Field Expr)} :
    (convertMembers ctx unit taken members).run p = .ok (fields, p') ↔
      Calls (FieldOf ctx) members p fields p' ∧ (fields.map (·.name)).Nodup ∧
        ∀ field ∈ fields, taken.lookup field.name = none := by
  induction members generalizing taken p fields with
  | nil =>
    constructor
    · intro h
      cases h
      exact ⟨.nil _, .nil, by simp⟩
    · rintro ⟨hcalls, -⟩
      cases hcalls
      rfl
  | cons m members ih =>
    rw [convertMembers, StateT.run_bind]
    have hkey (field other : TypeScript.Field Expr) :
        ((field.name, m.name) :: taken).lookup other.name = none ↔
          other.name ≠ field.name ∧ taken.lookup other.name = none := by
      rw [List.lookup_cons]
      by_cases heq : other.name = field.name
      · simp [heq]
      · simp only [beq_eq_false_iff_ne.mpr heq, ne_eq, heq, not_false_eq_true, true_and]
    constructor
    · intro h
      obtain ⟨⟨field, p₁⟩, hfield, h⟩ := bind_eq_ok h
      cases htaken : taken.lookup field.name with
      | some other =>
        simp only [htaken] at h
        cases h
      | none =>
        simp only [htaken, StateT.run_bind] at h
        obtain ⟨⟨rest, p₂⟩, hrest, h⟩ := bind_eq_ok h
        cases h
        obtain ⟨hcalls, hnodup, hnew⟩ := ih.mp hrest
        refine ⟨.cons (convertMember_eq_ok_iff.mp hfield) hcalls, ?_, ?_⟩
        · rw [List.map_cons, List.nodup_cons]
          refine ⟨fun hmem => ?_, hnodup⟩
          obtain ⟨other, hother, heq⟩ := List.mem_map.mp hmem
          exact ((hkey field other).mp (hnew other hother)).1 heq
        · exact List.forall_mem_cons.mpr
            ⟨htaken, fun other hother => ((hkey field other).mp (hnew other hother)).2⟩
    · rintro ⟨hcalls, hnodup, hnew⟩
      cases hcalls with
      | @cons _ field _ rest _ p₁ _ head tail =>
        obtain ⟨htaken, hnew⟩ := List.forall_mem_cons.mp hnew
        rw [List.map_cons, List.nodup_cons] at hnodup
        have hrest : (convertMembers ctx unit ((field.name, m.name) :: taken) members).run p₁ =
            .ok (rest, p') := by
          refine ih.mpr ⟨tail, hnodup.2, fun other hother => (hkey field other).mpr
            ⟨fun heq => hnodup.1 ?_, hnew other hother⟩⟩
          rw [← heq]
          exact List.mem_map_of_mem hother
        rw [convertMember_eq_ok_iff.mpr head, ok_bind]
        simp only [htaken]
        rw [StateT.run_bind, hrest]
        rfl

/-- In whatever state of a walk, flattening does what it should for every type. If the members of a
type can be gathered, its chain of bases has a root; the names of the members are those that the
chain declares, each once and in the order from the root down; and each member is the declaration of
its name that is furthest down, with its type rewritten by what the parameters of its record stand
for. The object type is there exactly if the members can be gathered, each of them has a field, and
the names of the fields are all different, and then it has these fields in this order. A chain that
comes back to a type is an error. -/
theorem objectType_flattened (setup : Setup) (s : State) (scope : List String) (unit : String)
    (source : TypeId) :
    (∀ members g, (membersOf source).run s.graph = .ok (members, g) →
      s.graph.Extends g ∧ ∃ levels, Lineage g [] source levels ∧ Flattened g levels members) ∧
    (∀ type s', objectType setup s scope unit source = .ok (type, s') ↔
      ∃ members g fields p, (membersOf source).run s.graph = .ok (members, g) ∧
        Calls (FieldOf ⟨g, setup.options, setup.hook, scope⟩) members s.progress fields p ∧
        (fields.map (·.name)).Nodup ∧ type = .object fields ∧ s' = ⟨g, p⟩) ∧
    (Revisits s.graph source → ∃ e, (membersOf source).run s.graph = .error e ∧
      ((∃ label, e = .unsupported label .cyclicInheritance) ∨ BadBase s.graph source e)) := by
  refine ⟨fun members g h => (membersOf_flattened source s.graph).result h, fun type s' => ?_,
    fun hrevisits => ?_⟩
  · constructor
    · intro h
      obtain ⟨⟨members, g⟩, hmembers, h⟩ := bind_eq_ok h
      obtain ⟨⟨fields, p⟩, hfields, h⟩ := bind_eq_ok h
      cases h
      obtain ⟨hcalls, hnodup, -⟩ := convertMembers_eq_ok_iff.mp hfields
      exact ⟨members, g, fields, p, hmembers, hcalls, hnodup, rfl, rfl⟩
    · rintro ⟨members, g, fields, p, hmembers, hcalls, hnodup, rfl, rfl⟩
      rw [objectType, hmembers, ok_bind]
      dsimp only
      rw [convertMembers_eq_ok_iff.mpr ⟨hcalls, hnodup, by simp⟩]
      rfl
  · have hfails : Outcome _ _ ((membersOf source).run s.graph) :=
      membersWithin_fails (s.graph.model.size + 2) [] [] hrevisits.not_acc
    cases hrun : (membersOf source).run s.graph with
    | ok r => exact absurd (hfails.result hrun) id
    | error e => exact ⟨e, rfl, hfails.failure hrun⟩

/-- Three records in a chain. `Base` has two members of type `T`, `Mid` extends it for `T[]` and
adds one of its own `T`, and `Leaf` extends `Mid` for integers and declares `b` again. The last
record is its own base. -/
def chained : Arena :=
  ⟨#[some (.primitive .integer), some (.primitive .string), some (.parameter "T"),
    some (.array 2),
    some (.complex ⟨"Base", none, ["T"], none,
      [⟨"a", 2, false, false, none⟩, ⟨"b", 2, false, false, none⟩]⟩),
    some (.instantiation 4 [3]),
    some (.complex ⟨"Mid", none, ["T"], some 5, [⟨"c", 2, false, false, none⟩]⟩),
    some (.instantiation 6 [0]),
    some (.complex ⟨"Leaf", none, [], some 7, [⟨"b", 1, true, false, none⟩]⟩),
    some (.complex ⟨"Ring", none, [], some 9, []⟩)]⟩

/-- In `Leaf` the member `b` stays in its place with the new type, and `T` is what it stands for in
each record. Nothing is found for the record that is its own base. -/
theorem objectType_flattened_leaf :
    (∃ levels, Lineage ⟨chained, #[.array 0]⟩ [] 8 levels ∧
      Flattened ⟨chained, #[.array 0]⟩ levels [⟨"a", 10, false, false, none⟩,
        ⟨"b", 1, true, false, none⟩, ⟨"c", 0, false, false, none⟩]) ∧
    ∃ e, (membersOf 9).run ⟨chained, #[]⟩ = .error e := by
  have hflattened (source : TypeId) :=
    objectType_flattened ⟨{}, fun _ => none⟩ ⟨⟨chained, #[]⟩, ⟨.empty, []⟩⟩ [] "Leaf" source
  constructor
  · have hrun : (membersOf 8).run ⟨chained, #[]⟩ = .ok ([⟨"a", 10, false, false, none⟩,
        ⟨"b", 1, true, false, none⟩, ⟨"c", 0, false, false, none⟩], ⟨chained, #[.array 0]⟩) := by
      rfl
    exact ((hflattened 8).1 _ _ hrun).2
  · have hring : Graph.Base ⟨chained, #[]⟩ 9 9 := ⟨_, rfl, rfl⟩
    obtain ⟨e, hrun, -⟩ := (hflattened 9).2.2 ⟨9, .refl, .single hring⟩
    exact ⟨e, hrun⟩

end Declgen.Walk
