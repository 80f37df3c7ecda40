import Declgen.Files.Disk
import Mathlib.Logic.Relation

/-!
# Ways through a tree

A path that leads to an entry still leads there when the tree grows, as long as folders and links
stay what they are. A way through a tree can be taken in two parts, and where it meets no link, it
leads to the entry with its names.
-/

namespace Declgen.Files

/-- An entry that is put is found under its key, and others stay. -/
theorem lookup_putEntry (key : Key) (entry : Entry) (entries : List (Key × Entry)) (other : Key) :
    (putEntry key entry entries).lookup other =
      if other = key then some entry else entries.lookup other := by
  have hcons (first : Key) (old : Entry) (entries : List (Key × Entry)) :
      ((first, old) :: entries).lookup other =
        if other = first then some old else entries.lookup other := by
    rw [List.lookup_cons]
    by_cases heq : other = first
    · simp [heq]
    · simp [heq, beq_eq_false_iff_ne.mpr heq]
  induction entries with
  | nil => exact hcons key entry []
  | cons first entries ih =>
    obtain ⟨first, old⟩ := first
    rw [putEntry]
    split
    · rename_i heq
      subst heq
      rw [hcons, hcons]
      split <;> rfl
    · rename_i hne
      split
      · exact hcons _ _ _
      · rw [hcons, hcons, ih]
        split
        · rename_i heq
          rw [if_neg fun h => hne (h.symm.trans heq)]
        · rfl

/-- The second entry can stand where the first one stood without changing any way: it is the same,
or both are files. -/
def Entry.Alike (e e' : Entry) : Prop := e' = e ∨ (∃ c, e = .file c) ∧ ∃ c, e' = .file c

namespace Tree

variable {t t' : Tree} {key : Key}

/-- The root is a folder. -/
theorem entry?_nil (t : Tree) : t.entry? [] = some .folder := rfl

/-- What is found after an entry has been put. -/
theorem entry?_put (t : Tree) (hkey : key ≠ []) (entry : Entry) (other : Key) :
    entry? (t.put key entry) other = if other = key then some entry else t.entry? other := by
  cases other with
  | nil => simp [ entry?, hkey.symm]
  | cons name names => exact lookup_putEntry key entry t.entries _

/-- An entry other than the top is listed. -/
theorem mem_entries {entry : Entry} (hkey : key ≠ []) (h : t.entry? key = some entry) :
    (key, entry) ∈ t.entries := by
  rw [ entry?, if_neg (by simpa using hkey)] at h
  obtain ⟨before, after, heq, -⟩ := List.lookup_eq_some_iff.mp h
  rw [heq]
  exact List.mem_append_right _ List.mem_cons_self

/-- Whatever is in the first tree is in the second one, where other texts may stand in files. -/
structure Keeps (t t' : Tree) : Prop where
  /-- Paths start from the same folder. -/
  home : t'.home = t.home
  /-- Folders and links stay, and files stay files. -/
  entry : ∀ key e, t.entry? key = some e → ∃ e', t'.entry? key = some e' ∧ e.Alike e'

/-- Whatever is in the first tree is in the second one. -/
structure Extends (t t' : Tree) : Prop where
  /-- Paths start from the same folder. -/
  home : t'.home = t.home
  /-- Entries stay. -/
  entry : ∀ key e, t.entry? key = some e → t'.entry? key = some e

namespace Keeps

/-- A tree keeps its own entries. -/
theorem refl (t : Tree) : Keeps t t := ⟨rfl, fun _ e h => ⟨e, h, .inl rfl⟩⟩

/-- What is kept twice is kept. -/
theorem trans {t'' : Tree} (h : Keeps t t') (h' : Keeps t' t'') : Keeps t t'' := by
  refine ⟨h'.home.trans h.home, fun key e hkey => ?_⟩
  obtain ⟨e', hkey', halike⟩ := h.entry key e hkey
  obtain ⟨e'', hkey'', halike'⟩ := h'.entry key e' hkey'
  refine ⟨e'', hkey'', ?_⟩
  rcases halike with rfl | ⟨hfile, c, rfl⟩
  · exact halike'
  · rcases halike' with rfl | ⟨-, hfile'⟩
    · exact .inr ⟨hfile, c, rfl⟩
    · exact .inr ⟨hfile, hfile'⟩

/-- A folder stays. -/
theorem folder (h : Keeps t t') (hkey : t.entry? key = some .folder) :
    t'.entry? key = some .folder := by
  obtain ⟨e, he, rfl | ⟨⟨c, hc⟩, -⟩⟩ := h.entry key _ hkey
  · exact he
  · cases hc

/-- A link stays. -/
theorem link (h : Keeps t t') {target : String} (hkey : t.entry? key = some (.link target)) :
    t'.entry? key = some (.link target) := by
  obtain ⟨e, he, rfl | ⟨⟨c, hc⟩, -⟩⟩ := h.entry key _ hkey
  · exact he
  · cases hc

/-- What is no link does not become one. -/
theorem not_link (h : Keeps t t') {e : Entry} (hkey : t.entry? key = some e)
    (he : ∀ target, e ≠ .link target) :
    ∃ e', t'.entry? key = some e' ∧ ∀ target, e' ≠ .link target := by
  obtain ⟨e', he', rfl | ⟨-, c, rfl⟩⟩ := h.entry key e hkey
  · exact ⟨e', he', he⟩
  · exact ⟨_, he', fun target => nofun⟩

end Keeps

namespace Extends

/-- A tree extends itself. -/
theorem refl (t : Tree) : Extends t t := ⟨rfl, fun _ _ h => h⟩

/-- An extension of an extension is one. -/
theorem trans {t'' : Tree} (h : Extends t t') (h' : Extends t' t'') : Extends t t'' :=
  ⟨h'.home.trans h.home, fun key e hkey => h'.entry key e (h.entry key e hkey)⟩

/-- A larger tree keeps what was there. -/
theorem keeps (h : Extends t t') : Keeps t t' :=
  ⟨h.home, fun key e hkey => ⟨e, h.entry key e hkey, .inl rfl⟩⟩

/-- An entry at a free place takes nothing away. -/
theorem put (hkey : t.entry? key = none) (entry : Entry) : Extends t (t.put key entry) := by
  have hne : key ≠ [] := fun heq => by simp [heq, t.entry?_nil] at hkey
  refine ⟨rfl, fun other e he => ?_⟩
  rw [t.entry?_put hne, if_neg fun heq => by simp [heq, hkey] at he]
  exact he

end Extends

/-- A new text in a file changes no way. -/
theorem Keeps.put {content content' : Content} (hkey : t.entry? key = some (.file content)) :
    Keeps t (t.put key (.file content')) := by
  have hne : key ≠ [] := fun heq => by simp [heq, t.entry?_nil] at hkey
  refine ⟨rfl, fun other e he => ?_⟩
  rw [t.entry?_put hne]
  split
  · rename_i heq
    rw [heq, hkey] at he
    cases he
    exact ⟨_, rfl, .inr ⟨⟨_, rfl⟩, _, rfl⟩⟩
  · exact ⟨e, he, .inl rfl⟩

/-! ### Ways -/

/-- How far a path has been followed. -/
structure Position where
  /-- How many more links may be followed. -/
  links : Nat
  /-- The place that has been reached. -/
  here : Key
  /-- The segments that are left. -/
  rest : List String

/-- One step along a path. -/
inductive Step (t : Tree) : Position → Position → Prop
  /-- An idle segment stays. -/
  | stay {links : Nat} {here : Key} {segment : String} {rest : List String}
      (folder : t.entry? here = some .folder) (idle : Path.isIdle segment = true) :
      Step t ⟨links, here, segment :: rest⟩ ⟨links, here, rest⟩
  /-- Two dots climb. -/
  | climb {links : Nat} {here : Key} {rest : List String}
      (folder : t.entry? here = some .folder) :
      Step t ⟨links, here, ".." :: rest⟩ ⟨links, here.dropLast, rest⟩
  /-- A link is followed. -/
  | follow {links : Nat} {here : Key} {segment target : String} {rest : List String}
      (folder : t.entry? here = some .folder) (idle : ¬Path.isIdle segment = true)
      (up : segment ≠ "..") (link : t.entry? (here ++ [segment]) = some (.link target)) :
      Step t ⟨links + 1, here, segment :: rest⟩
        ⟨links, if Path.isAbsolute ⟨target⟩ then [] else here, Path.segments ⟨target⟩ ++ rest⟩
  /-- Any other entry is entered. -/
  | enter {links : Nat} {here : Key} {segment : String} {rest : List String} {e : Entry}
      (folder : t.entry? here = some .folder) (idle : ¬Path.isIdle segment = true)
      (up : segment ≠ "..") (entry : t.entry? (here ++ [segment]) = some e)
      (link : ∀ target, e ≠ .link target) :
      Step t ⟨links, here, segment :: rest⟩ ⟨links, here ++ [segment], rest⟩

/-- A way along a path. -/
abbrev Way (t : Tree) : Position → Position → Prop := Relation.ReflTransGen (Step t)

/-- Where a position leads. -/
def siteAt (t : Tree) (p : Position) : Site := t.walk true p.links p.here p.rest

/-- A step does not change where a position leads. -/
theorem Step.siteAt_eq {p q : Position} (h : Step t p q) : t.siteAt p = t.siteAt q := by
  cases h with
  | stay folder idle =>
    rw [siteAt, walk, if_neg (by simpa using folder), if_pos idle]
    rfl
  | climb folder =>
    rw [siteAt, walk, if_neg (by simpa using folder), if_neg (by decide), if_pos rfl]
    rfl
  | follow folder idle up link =>
    rw [siteAt, walk, if_neg (by simpa using folder), if_neg idle, if_neg up]
    simp [link, siteAt]
  | @enter links here segment rest e folder idle up entry link =>
    rw [siteAt, walk, if_neg (by simpa using folder), if_neg idle, if_neg up]
    cases e with
    | link target => exact absurd rfl (link target)
    | _ => simp [entry, siteAt]

/-- Where one ends up does not change on the way. -/
theorem Way.siteAt_eq {p q : Position} (h : Way t p q) : t.siteAt p = t.siteAt q := by
  induction h with
  | refl => rfl
  | tail _ hstep ih => exact ih.trans hstep.siteAt_eq

/-- A position at which a way ends before a free place. -/
structure AtFree (t : Tree) (p : Position) (segment : String) (rest : List String) : Prop where
  /-- The name of the free place is next. -/
  next : p.rest = segment :: rest
  /-- The free place is in a folder. -/
  folder : t.entry? p.here = some .folder
  /-- The segment does not stay. -/
  idle : ¬Path.isIdle segment = true
  /-- Nor does it climb. -/
  up : segment ≠ ".."
  /-- There is nothing at the place. -/
  none : t.entry? (p.here ++ [segment]) = none

/-- A way goes on until it ends at an entry or before a free place, or it leads nowhere. -/
theorem exists_way (t : Tree) (p : Position) :
    (∃ links key, Way t p ⟨links, key, []⟩ ∧ t.siteAt p = .taken key) ∨
      (∃ q segment rest, Way t p q ∧ AtFree t q segment rest ∧
        t.siteAt p = .free (q.here ++ [segment]) !rest.isEmpty) ∨ t.siteAt p = .nowhere := by
  obtain ⟨links, here, segments⟩ := p
  -- What holds after a step holds before it.
  have hstep {p q : Position} (hstep : Step t p q)
      (h : (∃ links key, Way t q ⟨links, key, []⟩ ∧ t.siteAt q = .taken key) ∨
        (∃ q' segment rest, Way t q q' ∧ AtFree t q' segment rest ∧
          t.siteAt q = .free (q'.here ++ [segment]) !rest.isEmpty) ∨ t.siteAt q = .nowhere) :
      (∃ links key, Way t p ⟨links, key, []⟩ ∧ t.siteAt p = .taken key) ∨
        (∃ q segment rest, Way t p q ∧ AtFree t q segment rest ∧
          t.siteAt p = .free (q.here ++ [segment]) !rest.isEmpty) ∨ t.siteAt p = .nowhere := by
    rw [hstep.siteAt_eq]
    rcases h with ⟨links, key, hway, hsite⟩ | ⟨q', segment, rest, hway, hfree, hsite⟩ | hsite
    · exact .inl ⟨links, key, .head hstep hway, hsite⟩
    · exact .inr (.inl ⟨q', segment, rest, .head hstep hway, hfree, hsite⟩)
    · exact .inr (.inr hsite)
  induction links, here, segments using Tree.walk.induct t true with
  | case1 links here => exact .inl ⟨links, here, .refl, by rw [siteAt, walk]⟩
  | case2 links here segment rest hfolder =>
    exact .inr (.inr (by rw [siteAt, walk, if_pos hfolder]))
  | case3 links here segment rest hfolder hidle ih =>
    exact hstep (.stay (Decidable.not_not.mp hfolder) hidle) ih
  | case4 links here rest hfolder hidle ih => exact hstep (.climb (Decidable.not_not.mp hfolder)) ih
  | case5 links here segment rest hfolder hidle hup key hnone hrest =>
    refine .inr (.inl ⟨⟨links, here, segment :: rest⟩, segment, rest, .refl,
      ⟨rfl, Decidable.not_not.mp hfolder, hidle, hup, hnone⟩, ?_⟩)
    rw [siteAt, walk, if_neg hfolder, if_neg hidle, if_neg hup]
    have hnone' : t.entry? (here ++ [segment]) = none := hnone
    simp only [hnone', if_pos hrest]
  | case6 links here segment rest hfolder hidle hup key hnone hrest =>
    refine .inr (.inr ?_)
    have hnone' : t.entry? (here ++ [segment]) = none := hnone
    rw [siteAt, walk, if_neg hfolder, if_neg hidle, if_neg hup]
    simp only [hnone', if_neg hrest]
  | case7 links here segment rest hfolder hidle hup key target hlink hrest => simp at hrest
  | case8 here segment rest hfolder hidle hup key target hlink hrest =>
    refine .inr (.inr ?_)
    have hlink' : t.entry? (here ++ [segment]) = some (.link target) := hlink
    rw [siteAt, walk, if_neg hfolder, if_neg hidle, if_neg hup]
    simp [hlink']
  | case9 here segment rest hfolder hidle hup key target hlink hrest links start ih =>
    exact hstep (.follow (Decidable.not_not.mp hfolder) hidle hup hlink) ih
  | case10 links here segment rest hfolder hidle hup key e hlink hentry ih =>
    exact hstep (.enter (Decidable.not_not.mp hfolder) hidle hup hentry hlink) ih

/-- A position leads to an entry if and only if a way ends there. -/
theorem siteAt_eq_taken {p : Position} :
    t.siteAt p = .taken key ↔ ∃ links, Way t p ⟨links, key, []⟩ := by
  constructor
  · intro h
    rcases t.exists_way p with ⟨links, key', hway, hsite⟩ | ⟨q, segment, rest, -, -, hsite⟩ | hsite
    · rw [h, Site.taken.injEq] at hsite
      exact ⟨links, hsite ▸ hway⟩
    · cases h.symm.trans hsite
    · cases h.symm.trans hsite
  · rintro ⟨links, hway⟩
    rw [hway.siteAt_eq, siteAt, walk]

/-- A position that leads to a free place leads there by a way. -/
theorem exists_way_of_free {p : Position} {slash : Bool} (h : t.siteAt p = .free key slash) :
    ∃ q segment rest, Way t p q ∧ AtFree t q segment rest ∧ key = q.here ++ [segment] ∧
      slash = !rest.isEmpty := by
  rcases t.exists_way p with ⟨-, _, -, hsite⟩ | ⟨q, segment, rest, hway, hfree, hsite⟩ | hsite
  · cases h.symm.trans hsite
  · rw [h, Site.free.injEq] at hsite
    exact ⟨q, segment, rest, hway, hfree, hsite.1, hsite.2⟩
  · cases h.symm.trans hsite

/-! ### Ways in a larger tree -/

/-- A step can still be taken in a tree that keeps the entries. -/
theorem Step.keeps (h : Keeps t t') {p q : Position} (hstep : Step t p q) : Step t' p q := by
  cases hstep with
  | stay folder idle => exact .stay (h.folder folder) idle
  | climb folder => exact .climb (h.folder folder)
  | follow folder idle up link => exact .follow (h.folder folder) idle up (h.link link)
  | enter folder idle up entry link =>
    obtain ⟨e, he, hlink⟩ := h.not_link entry link
    exact .enter (h.folder folder) idle up he hlink

/-- A way stays when the tree grows. -/
theorem Way.keeps (h : Keeps t t') {p q : Position} (hway : Way t p q) : Way t' p q :=
  Relation.ReflTransGen.mono (fun _ _ hstep => hstep.keeps h) _ _ hway

/-- A position that leads to an entry still leads there. -/
theorem Keeps.siteAt (h : Keeps t t') {p : Position} (hsite : t.siteAt p = .taken key) :
    t'.siteAt p = .taken key := by
  obtain ⟨links, hway⟩ := siteAt_eq_taken.mp hsite
  exact siteAt_eq_taken.mpr ⟨links, hway.keeps h⟩

/-- After a file has been put at a free place, the way to the place leads to the file. -/
theorem siteAt_put {p : Position} (hsite : t.siteAt p = .free key false) (content : Content) :
    (t.put key (.file content)).siteAt p = .taken key := by
  obtain ⟨q, segment, rest, hway, hfree, rfl, hslash⟩ := exists_way_of_free hsite
  obtain rfl : rest = [] := by simpa using hslash.symm
  have hextends := Extends.put hfree.none (.file content)
  have hne : q.here ++ [segment] ≠ [] := by simp
  have hentry := t.entry?_put hne (.file content) (q.here ++ [segment])
  rw [if_pos rfl] at hentry
  have hstep : Step (t.put (q.here ++ [segment]) (.file content)) q
      ⟨q.links, q.here ++ [segment], []⟩ := by
    have hq : q = ⟨q.links, q.here, [segment]⟩ := by rw [← hfree.next]
    rw [hq]
    exact .enter (hextends.entry _ _ hfree.folder) hfree.idle hfree.up hentry fun _ => nofun
  exact siteAt_eq_taken.mpr ⟨q.links, (hway.keeps hextends.keeps).tail hstep⟩

/-- A walk that ends at an entry ends there in a larger tree, too. It matters only at a link at the
end whether links at the end are followed. -/
theorem Extends.walk_eq (h : Extends t t') {follow follow' : Bool} {links : Nat} {here : Key}
    {segments : List String}
    (hkey : follow = false → follow' = true → ∀ target, t.entry? key ≠ some (.link target))
    (hlinks : follow = true → follow' = false → ∀ key target, t.entry? key ≠ some (.link target))
    (hwalk : t.walk follow links here segments = .taken key) :
    t'.walk follow' links here segments = .taken key := by
  have hhere {here : Key} (hfolder : ¬t.entry? here ≠ some .folder) :
      ¬ t'.entry? here ≠ some .folder := by
    rw [Decidable.not_not] at hfolder ⊢
    exact h.entry _ _ hfolder
  fun_induction t.walk follow links here segments with
  | case1 links here => rwa [walk]
  | case3 links here segment rest hfolder hidle ih =>
    rw [walk, if_neg (hhere hfolder), if_pos hidle]
    exact ih hwalk
  | case4 links here rest hfolder hidle ih =>
    rw [walk, if_neg (hhere hfolder), if_neg hidle, if_pos rfl]
    exact ih hwalk
  | case7 links here segment rest hfolder hidle hup place target hentry hrest =>
    -- The walk ends at a link, so neither of them follows it.
    rw [Bool.and_eq_true, Bool.not_eq_true'] at hrest
    have hfollow' : follow' = false := Bool.eq_false_iff.mpr fun hyes =>
      hkey hrest.2 hyes target (Site.taken.inj hwalk ▸ hentry)
    have hentry' := h.entry (here ++ [segment]) _ hentry
    rw [walk, if_neg (hhere hfolder), if_neg hidle, if_neg hup]
    simpa [hentry', hrest.1, hfollow'] using hwalk
  | case9 here segment rest hfolder hidle hup place target hentry hrest links start ih =>
    have hrest' : ¬(rest.isEmpty && !follow') = true := by
      intro hlast
      rw [Bool.and_eq_true, Bool.not_eq_true'] at hlast
      cases follow with
      | true => exact hlinks rfl hlast.2 _ target hentry
      | false => exact hrest (by rw [hlast.1]; rfl)
    have hentry' := h.entry (here ++ [segment]) _ hentry
    rw [walk, if_neg (hhere hfolder), if_neg hidle, if_neg hup]
    simpa only [hentry', if_neg hrest', start, dite_eq_ite] using ih hwalk
  | case10 links here segment rest hfolder hidle hup place e hnolink hentry ih =>
    have hentry' := h.entry (here ++ [segment]) _ hentry
    rw [walk, if_neg (hhere hfolder), if_neg hidle, if_neg hup]
    cases e with
    | link target => exact absurd rfl (hnolink target)
    | _ => simpa [hentry'] using ih hwalk
  | _ => cases hwalk

/-- A path that leads to an entry leads there in a larger tree, even if links at the ends of paths
are followed in one tree only, provided that there are none. -/
theorem Extends.locate_eq (h : Extends t t') {follow follow' : Bool} {p : Path}
    (hkey : follow = false → follow' = true → ∀ target, t.entry? key ≠ some (.link target))
    (hlinks : follow = true → follow' = false → ∀ key target, t.entry? key ≠ some (.link target))
    (hlocate : t.locate follow p = .taken key) : t'.locate follow' p = .taken key := by
  rw [Tree.locate] at hlocate ⊢
  split at hlocate
  · cases hlocate
  · rename_i husable
    rw [if_neg husable, h.home]
    exact h.walk_eq hkey hlinks hlocate

/-- A path that leads to an entry leads to the same entry in a larger tree. -/
theorem Extends.locate (h : Extends t t') {follow : Bool} {p : Path}
    (hlocate : t.locate follow p = .taken key) : t'.locate follow p = .taken key :=
  h.locate_eq (fun hno hyes => absurd (hno.symm.trans hyes) (by decide))
    (fun hyes hno => absurd (hno.symm.trans hyes) (by decide)) hlocate

/-- What a path leads to without following a link at its end is a link, or what it leads to
otherwise. -/
theorem locate_of_locate_false {p : Path} (h : t.locate false p = .taken key)
    (hlink : ∀ target, t.entry? key ≠ some (.link target)) : t.locate true p = .taken key :=
  (Extends.refl t).locate_eq (fun _ _ => hlink) (fun hyes => absurd hyes (by decide)) h

/-! ### Parts of ways -/

/-- A step can be taken with more segments behind. -/
theorem Step.append {p q : Position} (h : Step t p q) (segments : List String) :
    Step t ⟨p.links, p.here, p.rest ++ segments⟩ ⟨q.links, q.here, q.rest ++ segments⟩ := by
  cases h with
  | stay folder idle => exact .stay folder idle
  | climb folder => exact .climb folder
  | follow folder idle up link =>
    dsimp only
    rw [List.append_assoc]
    exact .follow folder idle up link
  | enter folder idle up entry link => exact .enter folder idle up entry link

/-- A way along the first part of a path can be taken with the rest of the path behind it. -/
theorem Way.append {p q : Position} (h : Way t p q) (segments : List String) :
    Way t ⟨p.links, p.here, p.rest ++ segments⟩ ⟨q.links, q.here, q.rest ++ segments⟩ :=
  h.lift (fun p : Position => (⟨p.links, p.here, p.rest ++ segments⟩ : Position))
    fun _ _ hstep => hstep.append segments

/-- A step with more segments to come is a step without them. -/
theorem Step.exists_of_append {links : Nat} {here : Key} {segment : String}
    {rest segments : List String} {q : Position}
    (h : Step t ⟨links, here, segment :: (rest ++ segments)⟩ q) :
    ∃ q', Step t ⟨links, here, segment :: rest⟩ q' ∧
      q = ⟨q'.links, q'.here, q'.rest ++ segments⟩ := by
  cases h with
  | stay folder idle => exact ⟨_, .stay folder idle, rfl⟩
  | climb folder => exact ⟨_, .climb folder, rfl⟩
  | follow folder idle up link =>
    exact ⟨_, .follow folder idle up link, by rw [List.append_assoc]⟩
  | enter folder idle up entry link => exact ⟨_, .enter folder idle up entry link, rfl⟩

/-- A way along a whole path leads to an entry by the first part of the path, and from there by the
rest. -/
theorem Way.exists_of_append {links links' : Nat} {here : Key} {first rest : List String}
    (h : Way t ⟨links, here, first ++ rest⟩ ⟨links', key, []⟩) :
    ∃ links'' folder, Way t ⟨links, here, first⟩ ⟨links'', folder, []⟩ ∧
      Way t ⟨links'', folder, rest⟩ ⟨links', key, []⟩ := by
  generalize hp : Position.mk links here (first ++ rest) = p at h
  induction h using Relation.ReflTransGen.head_induction_on generalizing links here first with
  | refl =>
    rw [Position.mk.injEq, List.append_eq_nil_iff] at hp
    obtain ⟨rfl, rfl, rfl, rfl⟩ := hp
    exact ⟨links, here, .refl, .refl⟩
  | head hstep hway ih =>
    subst hp
    cases first with
    | nil => exact ⟨links, here, .refl, .head hstep hway⟩
    | cons segment first =>
      obtain ⟨q, hstep', rfl⟩ := Step.exists_of_append hstep
      obtain ⟨links'', folder, hfirst, hrest⟩ := ih rfl
      exact ⟨links'', folder, .head hstep' hfirst, hrest⟩

/-- Where no link stands below a folder, segments without steps up lead to the entry that has those
of them as names which say something. -/
theorem Way.eq_of_upless {links links' : Nat} {here : Key} {segments : List String}
    (hlinks : ∀ below target, below ≠ [] → t.entry? (here ++ below) ≠ some (.link target))
    (hup : ".." ∉ segments) (h : Way t ⟨links, here, segments⟩ ⟨links', key, []⟩) :
    key = here ++ segments.filter fun segment => !Path.isIdle segment := by
  induction segments generalizing links here with
  | nil =>
    rcases Relation.ReflTransGen.cases_head h with heq | ⟨q, hstep, -⟩
    · rw [Position.mk.injEq] at heq
      rw [heq.2.1, List.filter_nil, List.append_nil]
    · cases hstep
  | cons segment segments ih =>
    rw [List.mem_cons, not_or] at hup
    rcases Relation.ReflTransGen.cases_head h with heq | ⟨q, hstep, hway⟩
    · cases heq
    · cases hstep with
      | stay folder idle =>
        rw [List.filter_cons_of_neg (by simp [idle])]
        exact ih hlinks hup.2 hway
      | climb folder => exact absurd rfl hup.1
      | follow folder idle up link => exact absurd link (hlinks [segment] _ (by simp))
      | enter folder idle up entry link =>
        have hlinks' (below : Key) (target : String) (hne : below ≠ []) :
            t.entry? (here ++ [segment] ++ below) ≠ some (.link target) := by
          rw [List.append_assoc]
          exact hlinks _ target (by simp)
        rw [List.filter_cons_of_pos (by simpa using idle), ih hlinks' hup.2 hway, List.append_assoc,
          List.singleton_append]

/-- A walk that leads anywhere goes along the first part of its segments, if something comes behind
it. -/
theorem exists_way_of_walk {follow : Bool} {links : Nat} {here : Key} {first rest : List String}
    (hrest : ∃ segment ∈ rest, segment ≠ "")
    (h : t.walk follow links here (first ++ rest) ≠ .nowhere) :
    ∃ links' folder, Way t ⟨links, here, first⟩ ⟨links', folder, []⟩ := by
  have hbehind (segments : List String) : (segments ++ rest).all (·.isEmpty) = false := by
    obtain ⟨segment, hmem, hne⟩ := hrest
    exact List.all_eq_false.mpr ⟨segment, List.mem_append_right _ hmem, by simpa using hne⟩
  have hlast (segments : List String) : (segments ++ rest).isEmpty = false := by
    obtain ⟨segment, hmem, -⟩ := hrest
    simp [List.ne_nil_of_mem hmem]
  -- A way goes on with what comes after its first step.
  have hstep {p q : Position} (hstep : Step t p q) :
      (∃ links' folder, Way t q ⟨links', folder, []⟩) →
        ∃ links' folder, Way t p ⟨links', folder, []⟩ :=
    fun ⟨links', folder, hway⟩ => ⟨links', folder, .head hstep hway⟩
  induction links, here, first using Tree.walk.induct t true with
  | case1 links here => exact ⟨links, here, .refl⟩
  | case2 links here segment first hfolder =>
    rw [List.cons_append, walk, if_pos hfolder] at h
    exact absurd rfl h
  | case3 links here segment first hfolder hidle ih =>
    rw [List.cons_append, walk, if_neg hfolder, if_pos hidle] at h
    exact hstep (.stay (Decidable.not_not.mp hfolder) hidle) (ih h)
  | case4 links here first hfolder hidle ih =>
    rw [List.cons_append, walk, if_neg hfolder, if_neg hidle, if_pos rfl] at h
    exact hstep (.climb (Decidable.not_not.mp hfolder)) (ih h)
  | case5 links here segment first hfolder hidle hup key hnone hfirst =>
    have hnone' : t.entry? (here ++ [segment]) = none := hnone
    rw [List.cons_append, walk, if_neg hfolder, if_neg hidle, if_neg hup] at h
    simp [hnone', hbehind] at h
  | case6 links here segment first hfolder hidle hup key hnone hfirst =>
    have hnone' : t.entry? (here ++ [segment]) = none := hnone
    rw [List.cons_append, walk, if_neg hfolder, if_neg hidle, if_neg hup] at h
    simp [hnone', hbehind] at h
  | case7 links here segment first hfolder hidle hup key target hlink hfirst => simp at hfirst
  | case8 here segment first hfolder hidle hup key target hlink hfirst =>
    have hlink' : t.entry? (here ++ [segment]) = some (.link target) := hlink
    rw [List.cons_append, walk, if_neg hfolder, if_neg hidle, if_neg hup] at h
    simp [hlink', hlast] at h
  | case9 here segment first hfolder hidle hup key target hlink hfirst links start ih =>
    have hlink' : t.entry? (here ++ [segment]) = some (.link target) := hlink
    rw [List.cons_append, walk, if_neg hfolder, if_neg hidle, if_neg hup] at h
    simp only [hlink', hlast, Bool.false_and, Bool.false_eq_true, if_false,
      ← List.append_assoc] at h
    exact hstep (.follow (Decidable.not_not.mp hfolder) hidle hup hlink) (ih h)
  | case10 links here segment first hfolder hidle hup key e hlink hentry ih =>
    have hentry' : t.entry? (here ++ [segment]) = some e := hentry
    rw [List.cons_append, walk, if_neg hfolder, if_neg hidle, if_neg hup] at h
    refine hstep (.enter (Decidable.not_not.mp hfolder) hidle hup hentry hlink) (ih ?_)
    cases e with
    | link target => exact absurd rfl (hlink target)
    | _ => simpa [hentry'] using h

/-! ### Bounded walks -/

/-- A walk of a bounded number of steps, which can be evaluated on a closed tree. -/
def walkWithin (t : Tree) (follow : Bool) : Nat → Nat → Key → List String → Option Site
  | 0, _, _, _ => none
  | _ + 1, _, here, [] => some (.taken here)
  | steps + 1, links, here, segment :: rest =>
    if t.entry? here ≠ some .folder then some .nowhere
    else if Path.isIdle segment then t.walkWithin follow steps links here rest
    else if segment = ".." then t.walkWithin follow steps links here.dropLast rest
    else
      match t.entry? (here ++ [segment]) with
      | none =>
        some (if rest.all (·.isEmpty) && Path.isUsableName segment then
          .free (here ++ [segment]) !rest.isEmpty else .nowhere)
      | some (.link target) =>
        if rest.isEmpty && !follow then some (.taken (here ++ [segment]))
        else
          match links with
          | 0 => some .nowhere
          | links + 1 =>
            t.walkWithin follow steps links (if Path.isAbsolute ⟨target⟩ then [] else here)
              (Path.segments ⟨target⟩ ++ rest)
      | some _ => t.walkWithin follow steps links (here ++ [segment]) rest

/-- What a bounded walk finds is where the walk leads. -/
theorem walk_eq_of_walkWithin {follow : Bool} {steps links : Nat} {here : Key}
    {segments : List String} {site : Site}
    (h : t.walkWithin follow steps links here segments = some site) :
    t.walk follow links here segments = site := by
  fun_induction t.walkWithin follow steps links here segments with
  | case10 steps links here segment rest hfolder hidle hup e hnolink hentry ih =>
    rw [walk, if_neg hfolder, if_neg hidle, if_neg hup]
    cases e with
    | link target => exact absurd rfl (hnolink target)
    | _ => simpa [hentry] using ih h
  | _ =>
    rw [walk.eq_def]
    simp_all

/-- Where a path leads in a closed tree can be found out by a bounded walk. -/
theorem locate_eq_of_walkWithin {follow : Bool} (steps : Nat) {p : Path} {site : Site}
    (h : (if p.isUsable then t.walkWithin follow steps linkLimit
      (if p.isAbsolute then [] else t.home) p.segments else some .nowhere) = some site) :
    t.locate follow p = site := by
  rw [locate]
  split at h
  · rename_i husable
    rw [husable]
    exact walk_eq_of_walkWithin h
  · rename_i husable
    rw [Bool.not_eq_true] at husable
    rw [husable]
    exact Option.some.inj h

end Tree

end Declgen.Files
