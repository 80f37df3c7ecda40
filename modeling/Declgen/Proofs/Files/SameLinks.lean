import Declgen.Proofs.Files.Ancestors
import Declgen.Proofs.Files.Contents

/-!
# Trees with the same links

A run neither makes nor deletes links. So a path that leads to an entry before a run leads to the
same place after the run, or nowhere. A base that leads nowhere before a run may lead somewhere
after it: its first part leads to a folder, and the run makes the folders that are missing behind
this one. Without steps up behind the first of them, this is a place where there was nothing before.
-/

namespace Declgen.Files

open Disk Files.Tree

namespace Tree

variable {t t' : Tree} {base p : Path} {key root : Key} {names : List String}

/-- Two trees with the same home and the same links. -/
structure SameLinks (t t' : Tree) : Prop where
  /-- The home is the same. -/
  home : t'.home = t.home
  /-- The links are the same. -/
  link : ∀ key target, t'.entry? key = some (.link target) ↔ t.entry? key = some (.link target)

/-- A tree has its own links. -/
theorem SameLinks.refl (t : Tree) : SameLinks t t := ⟨rfl, fun _ _ => .rfl⟩

/-- Trees that share their links with the same one share them with each other. -/
theorem SameLinks.trans {t'' : Tree} (h : SameLinks t t') (h' : SameLinks t' t'') :
    SameLinks t t'' :=
  ⟨h'.home.trans h.home, fun key target => (h'.link key target).trans (h.link key target)⟩

/-- Having the same links is symmetric. -/
theorem SameLinks.symm (h : SameLinks t t') : SameLinks t' t :=
  ⟨h.home.symm, fun key target => (h.link key target).symm⟩

/-- What is no link can be taken out without a change to the links. -/
theorem SameLinks.erase (hkey : key ≠ []) (hlink : ∀ target, t.entry? key ≠ some (.link target)) :
    SameLinks t (t.erase key) := by
  refine ⟨rfl, fun other target => ?_⟩
  rw [t.entry?_erase hkey]
  split
  · rename_i heq
    exact ⟨nofun, fun h => absurd (heq ▸ h) (hlink target)⟩
  · rfl

/-- From a position, a step goes to the same one in both trees. -/
theorem Step.eq_of_sameLinks {x y y' : Position} (h : SameLinks t t') (hstep : Step t x y)
    (hstep' : Step t' x y') : y' = y := by
  cases hstep with
  | stay folder idle => exact hstep'.eq_of_idle idle
  | climb folder =>
    cases hstep' with
    | stay folder idle => exact absurd idle (by decide)
    | climb => rfl
    | follow folder idle up => exact absurd rfl up
    | enter folder idle up => exact absurd rfl up
  | follow folder idle up link =>
    cases hstep' with
    | stay folder' idle' => exact absurd idle' idle
    | climb => exact absurd rfl up
    | follow folder' idle' up' link' =>
      cases link.symm.trans ((h.link _ _).mp link')
      rfl
    | enter folder' idle' up' entry' link' =>
      cases entry'.symm.trans ((h.link _ _).mpr link)
      exact absurd rfl (link' _)
  | enter folder idle up entry link =>
    cases hstep' with
    | stay folder' idle' => exact absurd idle' idle
    | climb => exact absurd rfl up
    | follow folder' idle' up' link' =>
      cases entry.symm.trans ((h.link _ _).mp link')
      exact absurd rfl (link _)
    | enter => rfl

/-- Ways from one position to their ends lead to the same key in both trees. -/
theorem Way.eq_of_sameLinks {x : Position} {links links' : Nat} {key' : Key} (h : SameLinks t t')
    (hway : Way t x ⟨links, key, []⟩) (hway' : Way t' x ⟨links', key', []⟩) : key' = key := by
  induction hway using Relation.ReflTransGen.head_induction_on with
  | refl =>
    rcases Relation.ReflTransGen.cases_head hway' with heq | ⟨y, hstep, -⟩
    · exact (Position.mk.inj heq).2.1.symm
    · cases hstep
  | head hstep _ ih =>
    rcases Relation.ReflTransGen.cases_head hway' with rfl | ⟨y, hstep', hrest⟩
    · cases hstep
    · exact ih (hstep.eq_of_sameLinks h hstep' ▸ hrest)

/-- A path leads to the same place in both trees, if it leads to an entry in each of them. -/
theorem SameLinks.eq_of_locate {key' : Key} (h : SameLinks t t')
    (hlocate : t.locate true p = .taken key) (hlocate' : t'.locate true p = .taken key') :
    key' = key := by
  rw [locate_eq (usable_of_taken hlocate)] at hlocate
  rw [locate_eq (usable_of_taken hlocate'), start, h.home] at hlocate'
  obtain ⟨links, hway⟩ := siteAt_eq_taken.mp hlocate
  obtain ⟨links', hway'⟩ := siteAt_eq_taken.mp hlocate'
  exact hway.eq_of_sameLinks h hway'

/-- No step up is on the way along a path. -/
structure Upless (t : Tree) (p : Path) : Prop where
  /-- No segment of the path is one. -/
  path : ".." ∉ p.segments
  /-- No segment of the target of a link is one. -/
  target : ∀ key target, t.entry? key = some (.link target) → ".." ∉ Path.segments ⟨target⟩

/-- A folder is found on a way without steps up, if it is found there in the other tree. -/
theorem Way.of_sameLinks {x : Position} {links : Nat} (h : SameLinks t t') (ht : t.WellFormed)
    (hup : ".." ∉ x.rest)
    (htarget : ∀ key target, t.entry? key = some (.link target) → ".." ∉ Path.segments ⟨target⟩)
    (hway : Way t' x ⟨links, key, []⟩) (hfolder : t.entry? key = some .folder) :
    Way t x ⟨links, key, []⟩ ∧ t.entry? x.here = some .folder := by
  induction hway using Relation.ReflTransGen.head_induction_on with
  | refl => exact ⟨.refl, hfolder⟩
  | head hstep _ ih =>
    cases hstep with
    | stay folder idle =>
      obtain ⟨hrest, hhere⟩ := ih fun hmem => hup (List.mem_cons_of_mem _ hmem)
      exact ⟨.head (.stay hhere idle) hrest, hhere⟩
    | climb => exact absurd List.mem_cons_self hup
    | follow folder idle up link =>
      have hlink := (h.link _ _).mp link
      have hhere := ht.folder hlink
      refine ⟨.head (.follow hhere idle up hlink) (ih fun hmem => ?_).1, hhere⟩
      rcases List.mem_append.mp hmem with hmem | hmem
      · exact htarget _ _ hlink hmem
      · exact hup (List.mem_cons_of_mem _ hmem)
    | enter folder idle up entry link =>
      obtain ⟨hrest, hentry⟩ := ih fun hmem => hup (List.mem_cons_of_mem _ hmem)
      have hhere := ht.folder hentry
      exact ⟨.head (.enter hhere idle up hentry fun _ => nofun) hrest, hhere⟩

/-- Without steps up, a path leads to a folder if it does so in the other tree. -/
theorem SameLinks.locate (h : SameLinks t t') (ht : t.WellFormed) (hup : t.Upless p)
    (hlocate : t'.locate true p = .taken key) (hfolder : t.entry? key = some .folder) :
    t.locate true p = .taken key := by
  have husable := usable_of_taken hlocate
  rw [locate_eq husable, start, h.home] at hlocate
  obtain ⟨links, hway⟩ := siteAt_eq_taken.mp hlocate
  rw [locate_eq husable]
  exact siteAt_eq_taken.mpr ⟨links, (hway.of_sameLinks h ht hup.path hup.target hfolder).1⟩

/-! ### Openings -/

/-- A path opens in a folder: its first segments lead there, and the folder has nothing under the
name that comes next. -/
structure Opening (t : Tree) (p : Path) (above : List String) (name : String) (rest : List String)
    (here : Key) : Prop where
  /-- The first segments, the name and the rest are the path. -/
  segments : p.segments = above ++ name :: rest
  /-- The name does not stay. -/
  idle : Path.isIdle name = false
  /-- Nor does it climb. -/
  up : name ≠ ".."
  /-- The segments before it lead to the folder. -/
  way : ∃ links, Way t ⟨linkLimit, (t.start p).here, above⟩ ⟨links, here, []⟩
  /-- It is a folder. -/
  folder : t.entry? here = some .folder
  /-- It has nothing under the name. -/
  free : t.entry? (here ++ [name]) = none

/-- A path leads onward if there are no steps up behind the name at which it opens. -/
def Onward (t : Tree) (p : Path) : Prop :=
  ∀ above name rest here, t.Opening p above name rest here → ".." ∉ rest

/-- A walk along idle segments does not lead to a free place. -/
theorem walk_ne_free_of_idle {follow slash : Bool} {links : Nat} {here : Key}
    {segments : List String} (h : ∀ segment ∈ segments, Path.isIdle segment = true) :
    t.walk follow links here segments ≠ .free key slash := by
  induction segments with
  | nil => simp [walk]
  | cons segment segments ih =>
    rw [List.forall_mem_cons] at h
    rw [walk]
    split
    · exact Site.noConfusion
    · rw [if_pos h.1]
      exact ih h.2

/-- Where one name leads to a free place, there is a folder that has nothing under the name. -/
theorem eq_none_of_walk_name {slash : Bool} {links : Nat} {here : Key} {name : String}
    (hname : Path.isIdle name = false) (h : t.walk false links here [name] = .free key slash) :
    name ≠ ".." ∧ t.entry? here = some .folder ∧ t.entry? (here ++ [name]) = none := by
  rw [walk] at h
  split at h
  · cases h
  · rename_i hfolder
    rw [hname, if_neg Bool.false_ne_true] at h
    split at h
    · rw [walk] at h
      cases h
    · rename_i hup
      refine ⟨hup, Decidable.not_not.mp hfolder, ?_⟩
      cases hentry : t.entry? (here ++ [name]) with
      | none => rfl
      | some e => cases e <;> simp [hentry, walk] at h

/-- If a folder above a path can be put at a free place, the path opens. -/
theorem exists_opening_of_free {q : Path} {slash : Bool} (hq : q ∈ p.ancestors)
    (hfree : t.locate false q = .free key slash) :
    ∃ above name rest here, t.Opening p above name rest here := by
  rw [Tree.locate, usable_of_locate hfree Site.noConfusion, Bool.not_true,
    if_neg Bool.false_ne_true] at hfree
  obtain ⟨above, name, hcut⟩ := Path.exists_cutOff_of_mem hq <| by
    by_contra hidle
    refine walk_ne_free_of_idle (fun segment hmem => ?_) hfree
    by_contra hsegment
    exact hidle ⟨segment, hmem, by simpa using hsegment⟩
  have hne : name ≠ "" := by
    rintro rfl
    exact absurd hcut.idle (by decide)
  rw [hcut.segments, hcut.isAbsolute] at hfree
  obtain ⟨links, here, hway⟩ := exists_way_of_walk ⟨name, List.mem_singleton_self name, hne⟩
    (hfree.trans_ne Site.noConfusion)
  have hlast := (hway.walk_append (List.cons_ne_nil name []) false).symm.trans hfree
  obtain ⟨hup, hfolder, hnone⟩ := eq_none_of_walk_name hcut.idle hlast
  obtain ⟨rest, hrest⟩ := hcut.exists_rest
  exact ⟨above, name, rest, here, hrest, hcut.idle, hup, ⟨links, hway⟩, hfolder, hnone⟩

/-- A path below a base leads nowhere if the base does. -/
theorem locate_fullPath_of_missing {file : OutputFile} (hplain : file.Plain)
    (husable : base.isUsable = true) (hmissing : ∀ key, t.locate true base ≠ .taken key) :
    t.locate true (file.fullPath base) = .nowhere := by
  by_contra hlocate
  obtain ⟨above, name, hnames⟩ :=
    (List.eq_nil_or_concat' file.names).resolve_left hplain.names_ne_nil
  rw [Tree.locate] at hlocate
  split at hlocate
  · exact hlocate rfl
  · rw [hplain.segments_fullPath, hplain.isAbsolute_fullPath, hnames,
      ← List.append_assoc] at hlocate
    have hne : name ≠ "" := (OutputFile.mem_names (show name ∈ file.names by simp [hnames])).1
    obtain ⟨links, here, hway⟩ :=
      exists_way_of_walk ⟨name, List.mem_singleton_self name, hne⟩ hlocate
    rw [hway.walk_append (List.cons_ne_nil name []) true] at hlocate
    have hfolder : t.entry? here = some .folder := by
      by_contra hnot
      exact hlocate (by rw [List.nil_append, walk, if_pos hnot])
    obtain ⟨-, folder, hbase, -⟩ := exists_folder_of_way hway (.inr hfolder)
    exact hmissing folder ((locate_eq husable).trans hbase)

section Opened

variable {above rest : List String} {name : String} {here : Key}

/-- If a full path opens, so does the base, unless it leads somewhere. -/
theorem Opening.of_fullPath {file : OutputFile}
    (h : t.Opening (file.fullPath base) above name rest here) (hplain : file.Plain)
    (husable : base.isUsable = true) (hmissing : ∀ key, t.locate true base ≠ .taken key) :
    ∃ left, t.Opening base above name left here := by
  obtain ⟨links, hway⟩ := h.way
  have hsegments := h.segments
  rw [start, hplain.isAbsolute_fullPath] at hway
  rw [hplain.segments_fullPath] at hsegments
  -- The first segments are no more than a part of the base, for the whole base leads nowhere.
  have hpart {names : List String} (habove : above = base.lead ++ names) : False := by
    rw [habove] at hway
    obtain ⟨-, folder, hbase, -⟩ := exists_folder_of_way hway (.inr h.folder)
    exact hmissing folder ((locate_eq husable).trans hbase)
  obtain ⟨left, hlead⟩ : ∃ left, base.lead = above ++ name :: left := by
    rcases List.append_eq_append_iff.mp hsegments with ⟨names, habove, -⟩ | ⟨left, hlead, hleft⟩
    · exact (hpart habove).elim
    · cases left with
      | nil => exact (@hpart [] (by simpa using hlead.symm)).elim
      | cons first left =>
        obtain ⟨rfl, -⟩ := List.cons.inj hleft
        exact ⟨left, hlead⟩
  rcases Path.segments_cases base with heq | heq
  · exact ⟨left, heq.trans hlead, h.idle, h.up, ⟨links, hway⟩, h.folder, h.free⟩
  · refine ⟨left ++ [""], ?_, h.idle, h.up, ⟨links, hway⟩, h.folder, h.free⟩
    rw [heq, hlead, List.append_assoc, List.cons_append]

/-- There is nothing at the place where a path opens, and nothing below it. -/
theorem Opening.entry?_eq_none (h : t.Opening p above name rest here) (ht : t.WellFormed)
    (below : List String) : t.entry? (here ++ [name] ++ below) = none := by
  refine Option.eq_none_iff_forall_ne_some.mpr fun e hentry => ?_
  by_cases hbelow : below = []
  · rw [hbelow, List.append_nil, h.free] at hentry
    cases hentry
  · cases h.free.symm.trans (ht.folder_of_append hbelow hentry)

/-- In a larger tree, a path that opens in a folder goes through that folder and there through an
entry with the name: it follows a link, or it goes on from the entry. -/
theorem Opening.exists_entry (h : t.Opening p above name rest here) (hkeeps : Keeps t t')
    (hlocate : t'.locate true p = .taken root) :
    ∃ e, t'.entry? (here ++ [name]) = some e ∧ ((∃ target, e = .link target) ∨
      ∃ links links', Way t' ⟨links, here ++ [name], rest⟩ ⟨links', root, []⟩) := by
  obtain ⟨links, hway⟩ := h.way
  rw [locate_eq (usable_of_taken hlocate), start, hkeeps.home, h.segments] at hlocate
  obtain ⟨links', hwhole⟩ := siteAt_eq_taken.mp hlocate
  obtain ⟨links'', here', hfirst, hrest⟩ := hwhole.exists_of_append
  obtain rfl : here' = here := Site.taken.inj <|
    (siteAt_eq_taken.mpr ⟨_, hfirst⟩).symm.trans (siteAt_eq_taken.mpr ⟨_, hway.keeps hkeeps⟩)
  rcases Relation.ReflTransGen.cases_head hrest with heq | ⟨q, hstep, hbehind⟩
  · cases heq
  · cases hstep with
    | stay folder idle => exact absurd idle (by simp [h.idle])
    | climb folder => exact absurd rfl h.up
    | follow folder idle up link => exact ⟨_, link, .inl ⟨_, rfl⟩⟩
    | enter folder idle up entry link => exact ⟨_, entry, .inr ⟨_, _, hbehind⟩⟩

/-- In a larger tree with the same links, a path that leads onward goes on through the name at which
it opens. -/
theorem Onward.isPrefix (honward : t.Onward p) (h : t.Opening p above name rest here)
    (ht : t.WellFormed) (hkeeps : Keeps t t') (hlinks : SameLinks t t')
    (hlocate : t'.locate true p = .taken root) : here ++ [name] <+: root := by
  -- What stands at the place or below it is new, so it is no link.
  have hnolink (below : Key) (target : String) :
      t'.entry? (here ++ [name] ++ below) ≠ some (.link target) := fun hlink => by
    cases (h.entry?_eq_none ht below).symm.trans ((hlinks.link _ _).mp hlink)
  obtain ⟨e, hentry, ⟨target, rfl⟩ | ⟨links, links', hbehind⟩⟩ := h.exists_entry hkeeps hlocate
  · exact absurd hentry (by simpa using hnolink [] target)
  · rw [Way.eq_of_upless (fun below target _ => hnolink below target)
      (honward above name rest here h) hbehind]
    exact List.prefix_append _ _

end Opened

/-- A path without steps up leads onward. -/
theorem Onward.of_not_mem (t : Tree) (hup : ".." ∉ p.segments) : t.Onward p := by
  intro above name rest here h
  rw [h.segments, List.mem_append, List.mem_cons, not_or, not_or] at hup
  exact hup.2.2

/-- A path that leads somewhere leads onward: there is no name at which it opens. -/
theorem Onward.of_locate (hlocate : t.locate true p = .taken key) : t.Onward p := by
  intro above name rest here h
  obtain ⟨e, hentry, -⟩ := h.exists_entry (.refl t) hlocate
  cases h.free.symm.trans hentry

end Tree

/-! ### Runs -/

namespace Disk

variable {t t' : Tree} {base p : Path} {root : Key} {paths : List Path}

/-- Deleting listed files leaves the links. -/
theorem sameLinks_of_deletions (ht : t.WellFormed) (hpaths : ∀ p ∈ paths, p ∈ t.generated base)
    (h : Runs (paths.forM (deleteGenerated base)) t () t') : SameLinks t t' := by
  have hthinned := thinned_deletions t base
    fun p hp key hlocate => ht.entry?_of_generated (hpaths p hp) hlocate
  rw [h.leaves_eq] at hthinned
  refine ⟨hthinned.smaller.home.symm, fun key target => ⟨hthinned.smaller.entry key _,
    fun hlink => hthinned.kept key _ hlink nofun ?_⟩⟩
  rintro ⟨content, hentry, -⟩
  cases hlink.symm.trans hentry

/-- Writing files makes no link and keeps all links. -/
theorem sameLinks_of_writeEach {files : List OutputFile} {written : List String × List String}
    (h : Runs (writeEach base files) t written t') : SameLinks t t' := by
  have hold : OldLinks t t' :=
    ((closed_oldLinks t).writeEach base files).of_runs h ⟨rfl, fun _ _ h => h⟩
  exact ⟨hold.home, fun key target =>
    ⟨hold.link key target, (wroteAll_of_writeEach h).keeps.link⟩⟩

/-- Making a folder changes nothing, or the path or a folder above it can be put at a free place. -/
theorem exists_free_of_makeFolder (h : Runs (makeFolder p) t () t') :
    t' = t ∨ ∃ folder ∈ p :: p.ancestors, ∃ key slash, t.locate false folder = .free key slash := by
  have hfirst {folders : List Path}
      (h : Runs (folders.forM fun folder => change (·.withFolder? folder) (.createFolder p))
        t () t') :
      t' = t ∨ ∃ folder ∈ folders, ∃ key slash, t.locate false folder = .free key slash := by
    induction folders with
    | nil => exact .inl (runs_pure.mp h).2
    | cons folder folders ih =>
      obtain ⟨_, t₁, hmake, hrest⟩ := runs_bind.mp h
      rcases exists_of_withFolder? (runs_change.mp hmake) with rfl | ⟨key, slash, hfree, -⟩
      · exact (ih hrest).imp_right fun ⟨other, hother, hfree⟩ =>
          ⟨other, List.mem_cons_of_mem _ hother, hfree⟩
      · exact .inr ⟨folder, List.mem_cons_self, key, slash, hfree⟩
  unfold makeFolder at h
  split at h
  · exact .inl (runs_pure.mp h).2
  · split at h
    · exact absurd h runs_throw
    · refine (hfirst h).imp_right fun ⟨folder, hfolder, hfree⟩ => ⟨folder, ?_, hfree⟩
      exact List.mem_reverse.mp (List.mem_filter.mp hfolder).1

/-- A path that leads nowhere opens if a file can be written there. -/
theorem exists_opening_of_write {content : Content} (h : Runs (write p content) t () t')
    (hnowhere : t.locate true p = .nowhere) :
    ∃ above name rest here, t.Opening p above name rest here := by
  have hfile {t₁ : Tree} (hput : t₁.withFile? p content = some t') : t₁ ≠ t := by
    rintro rfl
    rw [withFile?, hnowhere] at hput
    cases hput
  unfold write at h
  dsimp only at h
  split at h
  · rename_i folder hparent
    obtain ⟨_, t₁, hmake, hchange⟩ := runs_bind.mp h
    obtain ⟨q, hq, key, slash, hfree⟩ :=
      (exists_free_of_makeFolder hmake).resolve_left (hfile (runs_change.mp hchange))
    rw [← Path.ancestors_of_parent? hparent] at hq
    exact exists_opening_of_free hq hfree
  · exact absurd rfl (hfile (runs_change.mp h))

/-- If a base that leads onward leads nowhere before files are written below it, then there has been
nothing at the place to which it leads afterwards. -/
theorem entry?_eq_none_of_missing {files : List OutputFile} {written : List String × List String}
    (ht : t.WellFormed) (honward : t.Onward base)
    (hmissing : ∀ key, t.locate true base ≠ .taken key) (hplain : ∀ file ∈ files, file.Plain)
    (h : Runs (writeEach base files) t written t') (hroot : t'.locate true base = .taken root)
    (names : List String) : t.entry? (root ++ names) = none := by
  cases files with
  | nil =>
    obtain ⟨-, rfl⟩ := runs_writeEach_nil.mp h
    exact absurd hroot (hmissing root)
  | cons file files =>
    have husable := usable_of_taken hroot
    have hkeeps := (wroteAll_of_writeEach h).keeps
    have hlinks := sameLinks_of_writeEach h
    have hfile := hplain file List.mem_cons_self
    have hnowhere := locate_fullPath_of_missing hfile husable hmissing
    obtain ⟨changed, t₁, rest, hfirst, -, -⟩ := runs_writeEach_cons.mp h
    -- A file that is up to date has a path that leads somewhere.
    have hwrite : Runs (write (file.fullPath base) (.text file.content)) t () t₁ := by
      rcases runs_writeIfChanged.mp hfirst with ⟨-, htext, -⟩ | ⟨-, -, hwrite⟩
      · obtain ⟨key, hkey, -⟩ := exists_of_text? htext
        cases hnowhere.symm.trans hkey
      · exact hwrite
    obtain ⟨above, name, rest, here, hopening⟩ := exists_opening_of_write hwrite hnowhere
    obtain ⟨left, hbase⟩ := hopening.of_fullPath hfile husable hmissing
    obtain ⟨behind, rfl⟩ := honward.isPrefix hbase ht hkeeps hlinks hroot
    rw [List.append_assoc]
    exact hbase.entry?_eq_none ht _

end Disk

end Declgen.Files
