import Declgen.Proofs.Alike.Types
import Declgen.Walk.Identity
import Declgen.Walk.Substitution

/-!
# Identities and names of types that say the same

Whatever is read off a type follows its parts down to the leaves, so types that are alike have the
same identity, the same name and the same header. That a type which contains itself is noticed
after different numbers of steps does not count, since nothing is read off such a type at all.
-/

namespace Declgen.Walk

open Model Declgen.Units

variable {g g' : Graph} {i j : TypeId}

/-- Instantiations that are alike apply records that match. -/
theorem Alike.definition_follows {definition definition' : TypeId}
    {arguments arguments' : List TypeId} (h : Alike g g' i j) (hd : g.get i = .ok (.instantiation definition arguments))
    (hd' : g'.get j = .ok (.instantiation definition' arguments'))
    (hlength : arguments.length = arguments'.length) :
    Follows (fun c c' => g.model.get definition = .ok (.complex c) ∧
        g'.model.get definition' = .ok (.complex c') ∧ c.Matches (Alike g g') c')
      (g.definition definition arguments.length)
      (g'.definition definition' arguments'.length) := by
  obtain ⟨c, c', hc, hc', hmatch⟩ := h.exists_record hd hd'
  simp only [Graph.definition, Arena.genericDefinition, hc, hc', hlength, hmatch.typeParams]
  by_cases harity : c'.typeParams.length = arguments'.length
  · rw [if_pos harity, if_pos harity]
    exact .pure ⟨rfl, rfl, hmatch⟩
  · rw [if_neg harity]
    exact .error _ _

/-! ### Identities -/

/-- A type that has an identity has an end. -/
theorem identityWithin_acc {depth : Nat} {above : List TypeId} {id : TypeId} :
    Outcome (fun _ => Acc g.Part id) (fun _ => True) (identityWithin g depth above id) := by
  induction depth generalizing above id with
  | zero => trivial
  | succ depth ih =>
    rw [identityWithin]
    by_cases hcontains : above.contains id = true
    · rw [if_pos hcontains]
      trivial
    rw [if_neg hcontains]
    cases hd : g.get id with
    | error e => trivial
    | ok d =>
      have hend := Graph.acc_of_parts hd
      rw [ok_bind]
      cases d with
      | nullable inner =>
        refine ih.bind fun _ hinner => ?_
        exact hend (by simpa [Descriptor.parts] using hinner)
      | array element =>
        refine ih.bind fun _ helement => ?_
        exact hend (by simpa [Descriptor.parts] using helement)
      | dictionary key value =>
        refine ih.bind fun _ hkey => ih.bind fun _ hvalue => ?_
        exact hend (by simpa [Descriptor.parts] using ⟨hkey, hvalue⟩)
      | instantiation definition arguments =>
        refine ih.bind fun _ hdefinition => ?_
        refine (Outcome.mapM_forall₂ fun argument _ => ih).bind fun _ harguments => ?_
        refine hend (List.forall_mem_cons.mpr ⟨hdefinition, fun argument hmem => ?_⟩)
        obtain ⟨-, -, hargument⟩ := exists_mem_of_forall₂ harguments hmem
        exact hargument
      | _ => exact hend (by simp [Descriptor.parts])

/-- Types that are alike have the same text, if their parts do. -/
theorem Wording.text_follows {w : Wording} {d d' : Descriptor} {same : TypeId → TypeId → Prop}
    {part part' : TypeId → Except GenerateError String} (hmatch : d.Matches same d')
    (hleaf : w.leaf d = w.leaf d')
    (hpart : ∀ p q, same p q → q ∈ d'.parts → Follows Eq (part p) (part' q)) :
    Follows Eq (w.text part d) (w.text part' d') := by
  cases hmatch with
  | nullable hinner =>
    refine (hpart _ _ hinner List.mem_cons_self).bind fun s s' hs => ?_
    exact .pure (by rw [hs])
  | array helement =>
    refine (hpart _ _ helement List.mem_cons_self).bind fun s s' hs => ?_
    exact .pure (by rw [hs])
  | dictionary hkey hvalue =>
    refine (hpart _ _ hkey (by simp [Descriptor.parts])).bind fun s s' hs => ?_
    refine (hpart _ _ hvalue (by simp [Descriptor.parts])).bind fun t t' ht => ?_
    exact .pure (by rw [hs, ht])
  | instantiation hdefinition harguments =>
    refine (hpart _ _ hdefinition List.mem_cons_self).bind fun s s' hs => ?_
    refine (Follows.mapM harguments fun p q hpq hq =>
      hpart p q hpq (List.mem_cons_of_mem _ hq)).bind fun ss ss' hss => ?_
    rw [List.forall₂_eq_eq_eq] at hss
    exact .pure (by rw [hs, hss])
  | _ => exact .pure hleaf

/-- The descents for the texts of types that are alike give the same text. The second one has either
as many levels as the first one or enough for all of its descents. -/
theorem Wording.within_follows {w : Wording} {deeper : Graph → TypeId → GenerateError}
    {depth depth' room : Nat} {above above' : List TypeId}
    (hleaf : ∀ d d', d.Matches (Alike g g') d' → w.leaf d = w.leaf d') (h : Alike g g' i j)
    (hroom : Room g'.Part (List.range g'.size) room above' j)
    (hdepth : depth' = depth ∨ depth' = room) :
    Follows Eq (w.within deeper g depth above i) (w.within deeper g' depth' above' j) := by
  induction depth generalizing depth' room above above' i j with
  | zero =>
    rw [within]
    split <;> exact .error _ _
  | succ depth ih =>
    obtain ⟨room, rfl⟩ := hroom.exists_depth
    obtain ⟨depth', rfl, hlevels⟩ : ∃ k, depth' = k + 1 ∧ (k = depth ∨ k = room) := by
      rcases hdepth with rfl | rfl
      · exact ⟨depth, rfl, .inl rfl⟩
      · exact ⟨room, rfl, .inr rfl⟩
    obtain ⟨d, d', hd, hd', hmatch⟩ := h.exists_get
    rw [within, within, if_neg hroom.contains_eq_false]
    by_cases hcontains : above.contains i = true
    · rw [if_pos hcontains]
      exact .error _ _
    · rw [if_neg hcontains, hd, hd', ok_bind, ok_bind]
      exact text_follows hmatch (hleaf d d' hmatch) fun p q hpq hq =>
        ih hpq (Graph.room_part hroom hd' hq) hlevels

/-- Types that are alike have the same identity. -/
theorem identityWithin_follows {depth depth' : Nat} {above above' : List TypeId}
    (h : Alike g g' i j) (hroom : Room g'.Part (List.range g'.size) depth' above' j) :
    Follows Eq (identityWithin g depth above i) (identityWithin g' depth' above' j) := by
  rw [identityWithin_eq_within, identityWithin_eq_within]
  refine Wording.within_follows (fun d d' hmatch => ?_) h hroom (.inr rfl)
  cases hmatch with
  | complex hmatch => exact hmatch.sameHead.recordIdentity_eq
  | _ => rfl

/-- Types that are alike have the same identity, if the first one has any. -/
theorem identity_follows (h : Alike g g' i j) : Follows Eq (identity g i) (identity g' j) := by
  intro s hs
  -- The first look has come to an end, so the second one has room for all of its descents.
  have hend := h.acc (identityWithin_acc.result hs)
  exact identityWithin_follows h (.start hend (by simp)) s hs

/-! ### Type parameters -/

/-- Types that are alike have parameters in them both, or none has. -/
theorem mentionsParameterWithin_follows {depth depth' : Nat} {above above' : List TypeId}
    (h : Alike g g' i j) (hroom : Room g'.Part (List.range g'.size) depth' above' j) :
    Follows Eq (mentionsParameterWithin g depth above i)
      (mentionsParameterWithin g' depth' above' j) := by
  induction depth generalizing depth' above above' i j with
  | zero => exact .error _ _
  | succ depth ih =>
    obtain ⟨depth', rfl⟩ := hroom.exists_depth
    obtain ⟨d, d', hd, hd', hmatch⟩ := h.exists_get
    have hpart (p q : TypeId) (hpq : Alike g g' p q) (hq : q ∈ d'.parts) :
        Follows Eq (mentionsParameterWithin g depth (i :: above) p)
          (mentionsParameterWithin g' depth' (j :: above') q) :=
      ih hpq (Graph.room_part hroom hd' hq)
    rw [mentionsParameterWithin, mentionsParameterWithin, if_neg hroom.contains_eq_false]
    by_cases hcontains : above.contains i = true
    · rw [if_pos hcontains]
      exact .error _ _
    rw [if_neg hcontains, hd, hd', ok_bind, ok_bind]
    cases hmatch with
    | nullable hinner => exact hpart _ _ hinner List.mem_cons_self
    | array helement => exact hpart _ _ helement List.mem_cons_self
    | dictionary hkey hvalue =>
      refine (hpart _ _ hkey (by simp [Descriptor.parts])).bind fun found _ hfound => ?_
      subst hfound
      cases found with
      | true => exact .pure rfl
      | false => exact hpart _ _ hvalue (by simp [Descriptor.parts])
    | instantiation hdefinition harguments =>
      refine (Follows.mapM harguments fun p q hpq hq =>
        hpart p q hpq (List.mem_cons_of_mem _ hq)).bind fun found found' hfound => ?_
      rw [List.forall₂_eq_eq_eq] at hfound
      exact .pure (by rw [hfound])
    | _ => exact .pure rfl

/-- If one of two types that are alike mentions a parameter, so does the other one. -/
theorem mentionsParameter_follows (h : Alike g g' i j) (hend : Acc g'.Part j) :
    Follows Eq (mentionsParameter g i) (mentionsParameter g' j) :=
  mentionsParameterWithin_follows h (.start hend (by simp))

/-! ### Names and headers -/

/-- Types that are alike have the same name. Unlike the depth of other looks, the number of levels
counts here, and it is the same for both. -/
theorem synthesizedWithin_follows {levels depth' : Nat} {above above' : List TypeId}
    (h : Alike g g' i j) (hroom : Room g'.Part (List.range g'.size) depth' above' j) :
    Follows Eq (synthesizedWithin g levels above i) (synthesizedWithin g' levels above' j) := by
  rw [synthesizedWithin_eq_within, synthesizedWithin_eq_within]
  refine Wording.within_follows (fun d d' hmatch => ?_) h hroom (.inl rfl)
  cases hmatch with
  | complex hmatch => exact congrArg pascalName hmatch.name
  | _ => rfl

/-- Named types that are alike have the same header. -/
theorem header_follows (h : Alike g g' i j) (hend : Acc g'.Part j) :
    Follows Eq (header g i) (header g' j) := by
  obtain ⟨d, d', hd, hd', hmatch⟩ := h.exists_get
  rw [header, header, hd, hd', ok_bind, ok_bind]
  cases hmatch with
  | complex hmatch => exact .pure (by rw [hmatch.name, hmatch.space, hmatch.typeParams])
  | enum e => exact .pure rfl
  | instantiation hdefinition harguments =>
    refine (h.definition_follows hd hd' harguments.length_eq).bind fun c c' hc => ?_
    obtain ⟨-, -, hc⟩ := hc
    have hroom : Room g'.Part (List.range g'.size) (g'.size + 1) [] j := .start hend (by simp)
    refine (synthesizedWithin_follows h hroom).bind fun name name' hname => ?_
    exact .pure (by rw [hname, hc.space])
  | _ => exact .error _ _

end Declgen.Walk
