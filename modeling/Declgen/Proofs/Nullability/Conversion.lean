import Declgen.Proofs.Nullability.Members
import Declgen.Proofs.TypeScript.Comparison
import Declgen.Proofs.Walk.Naming

/-!
# Conversions up to repeated nullability

The type expression of a type that may be null is a union with `null`, in which `null` stands once
however often it is added. So types that agree up to repeated nullability have the same expression,
and on the way to it the same units are met.
-/

namespace Declgen.Walk

open Model TypeScript Declgen.Units

/-- What has the expression of a type that may be null does not change if null is added. -/
theorem TypeTree.nullable_of_expr? {style : GenericStyle} {units : Registry} {scope : List String}
    {t : TypeTree} {e : Expr} (he : (TypeTree.nullable t).expr? style units scope = some e) :
    e.nullable = e := by
  obtain ⟨inner, -, rfl⟩ := Option.map_eq_some_iff.mp he
  exact Expr.nullable_nullable inner

/-! ### Meeting units -/

/-- The progress of two walks over the graphs `g` and `g'` at the same time: the units are the same,
and the same units wait, for types that agree. -/
structure ProgressAgrees (inside : Bool) (g g' : Graph) (p p' : Progress) : Prop where
  /-- The units are the same. -/
  units : p.units = p'.units
  /-- The same units wait. -/
  queue : List.Forall₂ (fun w w' => w.unit = w'.unit ∧ (w.source : Nat) < g.size ∧
    (w'.source : Nat) < g'.size ∧ (g.tree w.source).Agrees inside true (g'.tree w'.source))
    p.queue p'.queue

/-- The results of two conversions are the same, and so is the progress that they made. -/
def AgreedResults (inside : Bool) (g g' : Graph) {α : Type} (r r' : α × Progress) : Prop :=
  r.1 = r'.1 ∧ ProgressAgrees inside g g' r.2 r'.2

variable {inside : Bool} {g g' : Graph} {i j : Nat} {p p' : Progress} {options : Options}
  {hook : Hook} {scope : List String}

/-- Walks that agree go on doing so while their graphs grow. -/
theorem ProgressAgrees.grows (h : ProgressAgrees inside g g' p p') (hg : g.WellFormed)
    (hg' : g'.WellFormed) {g₁ g₁' : Graph} (hgrow : g.Grows g₁) (hgrow' : g'.Grows g₁') :
    ProgressAgrees inside g₁ g₁' p p' where
  units := h.units
  queue := h.queue.imp fun w w' hw => by
    obtain ⟨hunit, hw, hw', hagree⟩ := hw
    refine ⟨hunit, hgrow.lt_size hw, hgrow'.lt_size hw', ?_⟩
    rw [hg.tree_extends hgrow.toExtends hw, hg'.tree_extends hgrow'.toExtends hw']
    exact hagree

section Units

variable {here : Bool} {t u : TypeTree}

/-- Named types that agree have the same unit, unless they are instantiations with arguments that
differ. -/
theorem unitFor_agrees (hg : g.WellFormed) (hg' : g'.WellFormed) (h : t.Agrees inside here u)
    (hi : i < g.size) (ht : g.tree i = t) (hj : j < g'.size) (hu : g'.tree j = u)
    (hnamed : t.isNamed = true)
    (harguments : inside = false ∨
      ∀ definition c arguments, t ≠ .instantiation definition c arguments)
    (hp : ProgressAgrees inside g g' p p') :
    Follows (AgreedResults inside g g') ((unitFor g i).run p) ((unitFor g' j).run p') := by
  obtain ⟨hspelling, hheader⟩ := h.unit_eq hnamed harguments
  subst ht
  subst hu
  rw [unitFor, unitFor, run_bind_eq (identity_run hg hi p), run_bind_eq (identity_run hg' hj p'),
    run_bind_eq (get_run p), run_bind_eq (get_run p'), hp.units, hspelling]
  cases p'.units.lookup (g'.tree j).spelling with
  | some unit => exact .pure ⟨rfl, hp⟩
  | none =>
    cases hleft : header g i with
    | error e => exact .error _ _
    | ok header =>
      have hsome := (header_outcome hg hi hnamed).result hleft
      rw [hheader] at hsome
      rw [header_eq hg' hj hsome, lift_ok_bind, lift_ok_bind]
      cases p'.units.reserve (g'.tree j).spelling header with
      | error e => exact .error _ _
      | ok r =>
        refine .pure ⟨rfl, rfl, List.rel_append hp.queue (.cons ?_ .nil)⟩
        exact ⟨rfl, hi, hj, h.weaken⟩

/-- A reference to types that agree is the same, unless it is to an application and arguments may
differ. -/
theorem referenceTo_agrees (hg : g.WellFormed) (hg' : g'.WellFormed) (h : t.Agrees inside here u)
    (hi : i < g.size) (ht : g.tree i = t) (hj : j < g'.size) (hu : g'.tree j = u)
    (hnamed : t.isNamed = true)
    (harguments : inside = false ∨
      ∀ definition c arguments, t ≠ .instantiation definition c arguments)
    (hp : ProgressAgrees inside g g' p p') :
    Follows (AgreedResults inside g g') ((referenceTo g i).run p) ((referenceTo g' j).run p') := by
  refine (unitFor_agrees hg hg' h hi ht hj hu hnamed harguments hp).run_bind
    fun r p₁ r' p₁' hr => ?_
  obtain ⟨rfl, hp₁⟩ := hr
  exact .pure ⟨rfl, hp₁⟩

end Units

/-! ### Conversions side by side -/

section Look

variable {depth depth' : Nat} {within within' : List TypeId} {t u : TypeTree}

/-- Adding null to what stands at a place where null has been added already changes nothing. -/
theorem Look.nullable_eq (h : Look g depth within i (.nullable t)) (hg : g.WellFormed)
    (hhook : ∀ d, hook d = none) {e : Expr} {p₁ : Progress}
    (hrun : (convertWithin ⟨g, options, hook, scope⟩ depth within i).run p = .ok (e, p₁)) :
    e.nullable = e := by
  obtain ⟨-, hexpr⟩ := (h.converts hg hhook p).result hrun
  exact TypeTree.nullable_of_expr? hexpr

/-- Whether a type can be a key does not depend on repeated nullability. -/
theorem dictionaryOf_agrees {here : Bool} (h : t.Agrees inside here u) {key key' : TypeId}
    (hkey : g.Shows key t) (hkey' : g'.Shows key' u) {d d' : Descriptor} (hd : g.get key = .ok d)
    (hd' : g'.get key' = .ok d') {x x' : Discovery Expr} {value : Expr}
    (hx : Follows (AgreedResults inside g g') (x.run p) (x'.run p'))
    (hp : ProgressAgrees inside g g' p p') :
    Follows (AgreedResults inside g g') ((dictionaryOf g i d x value).run p)
      ((dictionaryOf g' j d' x' value).run p') := by
  cases h with
  | primitive kind =>
    cases hd.symm.trans hkey
    cases hd'.symm.trans hkey'
    cases kind with
    | string | date | integer | float => exact .pure ⟨rfl, hp⟩
    | boolean | binary => exact .error _ _
  | enum id e =>
    cases hd.symm.trans hkey
    cases hd'.symm.trans hkey'
    refine hx.run_bind fun e p₁ e' p₁' hr => ?_
    obtain ⟨rfl, hp₁⟩ := hr
    exact .pure ⟨rfl, hp₁⟩
  | record | parameter =>
    cases hd.symm.trans hkey
    exact .error _ _
  | nullable | left | array =>
    obtain ⟨_, hkey, -⟩ := hkey
    cases hd.symm.trans hkey
    exact .error _ _
  | right hright =>
    obtain ⟨_, rfl⟩ := hright.exists_nullable
    obtain ⟨_, hkey, -⟩ := hkey
    cases hd.symm.trans hkey
    exact .error _ _
  | dictionary =>
    obtain ⟨_, _, hkey, -⟩ := hkey
    cases hd.symm.trans hkey
    exact .error _ _
  | instantiation =>
    obtain ⟨_, hkey, -⟩ := hkey
    cases hd.symm.trans hkey
    exact .error _ _

/-- Types that agree have the same expression. -/
theorem convertWithin_agrees (hg : g.WellFormed) (hg' : g'.WellFormed) (hhook : ∀ d, hook d = none)
    (hinside : inside = true → options.generics = .preserve) {here : Bool}
    (h : t.Agrees inside here u) (hi : Look g depth within i t) (hj : Look g' depth' within' j u)
    (hp : ProgressAgrees inside g g' p p') :
    Follows (AgreedResults inside g g')
      ((convertWithin ⟨g, options, hook, scope⟩ depth within i).run p)
      ((convertWithin ⟨g', options, hook, scope⟩ depth' within' j).run p') := by
  induction h generalizing i j p p' depth depth' within within' with
  | primitive kind =>
    rw [hi.convert_primitive hg hhook, hj.convert_primitive hg' hhook]
    exact .pure ⟨rfl, hp⟩
  | enum id e =>
    rw [hi.convert_enum hg hhook, hj.convert_enum hg' hhook]
    have hsame : (TypeTree.enum id e).Agrees inside true (.enum id e) := .enum id e
    exact referenceTo_agrees hg hg' hsame hi.lt hi.tree hj.lt hj.tree rfl (.inr (by simp)) hp
  | @record _ id c c' hhead =>
    rw [hi.convert_record hg hhook, hj.convert_record hg' hhook, hhead.isGeneric_eq]
    split
    · exact .error _ _
    · have hsame : (TypeTree.record id c).Agrees inside true (.record id c') := .record id hhead
      exact referenceTo_agrees hg hg' hsame hi.lt hi.tree hj.lt hj.tree rfl (.inr (by simp)) hp
  | parameter name =>
    rw [hi.convert_parameter hg hhook, hj.convert_parameter hg' hhook]
    split
    · exact .error _ _
    · exact .pure ⟨rfl, hp⟩
  | nullable _ ih =>
    obtain ⟨_, inner, hinner, hconvert⟩ := hi.convert_nullable hg hhook
    obtain ⟨_, inner', hinner', hconvert'⟩ := hj.convert_nullable hg' hhook
    rw [hconvert, hconvert']
    refine (ih hinner hinner' hp).run_bind fun e p₁ e' p₁' hr => ?_
    obtain ⟨rfl, hp₁⟩ := hr
    exact .pure ⟨rfl, hp₁⟩
  | left _ ih =>
    obtain ⟨_, inner, hinner, hconvert⟩ := hi.convert_nullable hg hhook
    rw [hconvert]
    intro r hr
    obtain ⟨⟨e, p₁⟩, hrun, hr⟩ := bind_eq_ok hr
    obtain ⟨r', hrun', rfl, hp₁⟩ := ih hinner hj hp _ hrun
    cases hr
    exact ⟨r', hrun', hinner.nullable_eq hg hhook hrun, hp₁⟩
  | right _ ih =>
    obtain ⟨_, inner, hinner, hconvert⟩ := hj.convert_nullable hg' hhook
    rw [hconvert]
    intro r hr
    obtain ⟨⟨e, p₁'⟩, hrun', heq, hp₁⟩ := ih hi hinner hp r hr
    refine ⟨(e.nullable, p₁'), ?_, heq.trans (hinner.nullable_eq hg' hhook hrun').symm, hp₁⟩
    rw [run_bind_eq hrun']
    rfl
  | array _ ih =>
    obtain ⟨_, element, helement, hconvert⟩ := hi.convert_array hg hhook
    obtain ⟨_, element', helement', hconvert'⟩ := hj.convert_array hg' hhook
    rw [hconvert, hconvert']
    refine (ih helement helement' hp).run_bind fun e p₁ e' p₁' hr => ?_
    obtain ⟨rfl, hp₁⟩ := hr
    exact .pure ⟨rfl, hp₁⟩
  | dictionary hkeys _ ihkey ihvalue =>
    obtain ⟨_, key, value, d, hd, hkey, hvalue, hconvert⟩ := hi.convert_dictionary hg hhook
    obtain ⟨_, key', value', d', hd', hkey', hvalue', hconvert'⟩ := hj.convert_dictionary hg' hhook
    rw [hconvert, hconvert']
    refine (ihvalue hvalue hvalue' hp).run_bind fun e p₁ e' p₁' hr => ?_
    obtain ⟨rfl, hp₁⟩ := hr
    exact dictionaryOf_agrees hkeys (hkey.shows hg) (hkey'.shows hg') hd hd'
      (ihkey hkey hkey' hp₁) hp₁
  | @instantiation here definition c c' ts ts' hhead hlength hagree ih =>
    obtain ⟨_, arguments, hc, hlooks, htrees, hconvert⟩ := hi.convert_instantiation hg hhook
    obtain ⟨_, arguments', hc', hlooks', htrees', hconvert'⟩ := hj.convert_instantiation hg' hhook
    have hwhole : (TypeTree.instantiation definition c ts).Agrees inside here
        (.instantiation definition c' ts') := .instantiation definition hhead hlength hagree
    rw [hconvert, hconvert', hwhole.hasParameter_eq]
    split
    · -- The arguments are kept, so the record behind the instantiation is referred to.
      have hget := Graph.get_model hc
      have hget' := Graph.get_model hc'
      have hrecord : (TypeTree.record definition c).Agrees inside here (.record definition c') :=
        .record definition hhead
      refine (unitFor_agrees hg hg' hrecord (Graph.get_lt hget) (hg.tree_eq hget)
        (Graph.get_lt hget') (hg'.tree_eq hget') rfl (.inr (by simp)) hp).run_bind
          fun unit p₁ unit' p₁' hr => ?_
      obtain ⟨rfl, hp₁⟩ := hr
      have hgiven : List.Forall₂ (fun a b => (a ∈ arguments ∧ b ∈ arguments') ∧
          (g.tree a, g'.tree b) ∈ ts.zip ts') arguments arguments' := by
        refine List.forall₂_iff_zip.mpr ⟨?_, fun {a b} hab => ⟨List.of_mem_zip hab, ?_⟩⟩
        · rw [← htrees, ← htrees', List.length_map, List.length_map] at hlength
          exact hlength
        · rw [← htrees, ← htrees', List.zip_map, List.mem_map]
          exact ⟨(a, b), hab, rfl⟩
      refine (Follows.mapM_run (ProgressAgrees inside g g') (fun _ _ => Eq) hgiven
        (fun a b hab _ p₂ p₂' hp₂ => ?_) hp₁).run_bind fun es p₂ es' p₂' hr => ?_
      · obtain ⟨⟨ha, hb⟩, hmem⟩ := hab
        exact (ih _ _ hmem (hlooks a ha) (hlooks' b hb) hp₂).weaken
          fun r r' hr => ⟨hr.2, hr.1, fun _ _ h => h⟩
      · obtain ⟨hp₂, hes, -⟩ := hr
        rw [List.forall₂_eq_eq_eq] at hes
        exact .pure ⟨congrArg (Expr.genericReference unit.1 unit.2) hes, hp₂⟩
    · rename_i hkept
      have hdifferent : inside = false := by
        rw [← Bool.not_eq_true]
        exact fun h => hkept (.inl (hinside h))
      exact referenceTo_agrees hg hg' hwhole hi.lt hi.tree hj.lt hj.tree rfl (.inl hdifferent) hp

end Look

/-- Types that agree have the same expression. -/
theorem convert_agrees (hg : g.WellFormed) (hg' : g'.WellFormed) (hhook : ∀ d, hook d = none)
    (hinside : inside = true → options.generics = .preserve) {here : Bool} (hi : i < g.size)
    (hj : j < g'.size) (h : (g.tree i).Agrees inside here (g'.tree j))
    (hp : ProgressAgrees inside g g' p p') :
    Follows (AgreedResults inside g g') ((convert ⟨g, options, hook, scope⟩ i).run p)
      ((convert ⟨g', options, hook, scope⟩ j).run p') :=
  convertWithin_agrees hg hg' hhook hinside h ⟨hi, rfl, Nat.lt_succ_of_lt hi, by simp⟩
    ⟨hj, rfl, Nat.lt_succ_of_lt hj, by simp⟩ hp

end Declgen.Walk
