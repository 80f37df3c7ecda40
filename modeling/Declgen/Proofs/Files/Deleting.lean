import Declgen.Proofs.Files.Listing

/-!
# Deleting generated files

When listed files are deleted, nothing else is lost but folders, no matter where the run fails. If
it succeeds, all of the files are gone.
-/

namespace Declgen.Files

namespace Tree

variable {t t' : Tree} {p : Path} {key : Key}

/-- What is not in a tree is not in a smaller one. -/
theorem Extends.eq_none (h : Extends t t') (hkey : t'.entry? key = none) : t.entry? key = none := by
  refine Option.eq_none_iff_forall_ne_some.mpr fun e he => ?_
  rw [h.entry key e he] at hkey
  cases hkey

/-- The second tree lacks nothing but folders and entries whose key has `G`. -/
structure Thinned (G : Key → Prop) (t t' : Tree) : Prop where
  /-- Nothing is new. -/
  smaller : Extends t' t
  /-- Files and links stay where their key does not have `G`. -/
  kept : ∀ key e, t.entry? key = some e → e ≠ .folder → ¬G key → t'.entry? key = some e

end Tree

namespace Disk

open Files.Tree

variable {t t' : Tree} {base p : Path} {key : Key} {paths : List Path} {G : Key → Prop}

/-- Deleting a file brings nothing new. -/
theorem extends_of_withoutFile? (h : t.withoutFile? p = some t') : Extends t' t := by
  obtain ⟨key, -, hfolder, rfl⟩ := exists_of_withoutFile? h
  refine Extends.erase t ?_
  rintro rfl
  exact hfolder t.entry?_nil

/-- Removing a folder brings nothing new. -/
theorem extends_of_withoutFolder? (h : t.withoutFolder? p = some t') : Extends t' t := by
  obtain ⟨key, hkey, -, -, rfl⟩ := exists_of_withoutFolder? h
  exact Extends.erase t hkey

/-- Pruning folders brings nothing new. -/
theorem extends_prune {folders : List Path} (h : Runs (prune folders) t () t') : Extends t' t := by
  rw [← h.leaves_eq]
  exact preserves_prune (I := fun t' => Extends t' t)
    (fun t₁ t₂ folder h₁ hremove => (extends_of_withoutFolder? hremove).trans h₁) t (.refl t)

/-- Where only keys with `G` are deleted, only folders and these keys are lost. -/
theorem thinned_deletions (t : Tree) (base : Path)
    (hpaths : ∀ p ∈ paths, ∀ key, t.locate false p = .taken key → G key) :
    Thinned G t (leaves (paths.forM (deleteGenerated base)) t) := by
  refine preserves_forM (I := Thinned G t) (fun p hp => ?_) t ⟨.refl t, fun _ _ he _ _ => he⟩
  refine preserves_deleteGenerated (fun t₁ t₂ h₁ hdelete => ?_) fun t₁ t₂ folder h₁ hremove => ?_
  · refine ⟨(extends_of_withoutFile? hdelete).trans h₁.smaller, fun other e he hnot hgone => ?_⟩
    obtain ⟨key, hlocate, hfolder, rfl⟩ := exists_of_withoutFile? hdelete
    rw [t₁.entry?_erase (by rintro rfl; exact hfolder t₁.entry?_nil), if_neg,
      h₁.kept other e he hnot hgone]
    rintro rfl
    exact hgone (hpaths p hp other (h₁.smaller.locate hlocate))
  · refine ⟨(extends_of_withoutFolder? hremove).trans h₁.smaller, fun other e he hnot hgone => ?_⟩
    obtain ⟨key, hkey, hentry, -, rfl⟩ := exists_of_withoutFolder? hremove
    have hother := h₁.kept other e he hnot hgone
    rw [t₁.entry?_erase hkey, if_neg, hother]
    rintro rfl
    exact hnot (Option.some.inj (hother.symm.trans hentry))

/-- Deletions add nothing. -/
theorem extends_of_deletions (h : Runs (paths.forM (deleteGenerated base)) t () t') :
    Extends t' t := by
  have hthinned := thinned_deletions (G := fun _ => True) t base
    fun p (_ : p ∈ paths) _ _ => trivial
  rw [h.leaves_eq] at hthinned
  exact hthinned.smaller

/-- After the deletion of files has succeeded, they are gone. -/
theorem gone_of_deletions (h : Runs (paths.forM (deleteGenerated base)) t () t')
    (hp : p ∈ paths) : ∃ key, t.locate false p = .taken key ∧ t'.entry? key = none := by
  induction paths generalizing t with
  | nil => cases hp
  | cons first paths ih =>
    obtain ⟨_, t₂, hfirst, hrest⟩ := runs_bind.mp h
    obtain ⟨_, t₁, hdelete, hprune⟩ := runs_bind.mp hfirst
    have hsmaller := extends_prune hprune
    rcases List.mem_cons.mp hp with rfl | hp
    · obtain ⟨key, hlocate, hfolder, rfl⟩ := exists_of_withoutFile? (runs_change.mp hdelete)
      have hkey : key ≠ [] := by
        rintro rfl
        exact hfolder t.entry?_nil
      have hgone : Tree.entry? (t.erase key) key = none := by
        rw [t.entry?_erase hkey, if_pos rfl]
      exact ⟨key, hlocate, ((extends_of_deletions hrest).trans hsmaller).eq_none hgone⟩
    · obtain ⟨key, hlocate, hkey⟩ := ih hrest hp
      have hextends := hsmaller.trans (extends_of_withoutFile? (runs_change.mp hdelete))
      exact ⟨key, hextends.locate hlocate, hkey⟩

/-! ### Phases of a run -/

/-- The generated files of a base that are not among the files of a run. -/
def stale (t : Tree) (base : Path) (s : OutputSet) : List Path :=
  (t.generated base).filter fun p => !(s.files.map fun file => file.fullPath base).any (·.same p)

/-- A generated file below the base is stale if no file of the run has its names. -/
theorem mem_stale_below {s : OutputSet} {names : List String}
    (hplain : ∀ file ∈ s.files, file.Plain) (hnames : ∀ name ∈ names, IsName name) :
    base.below names ∈ stale t base s ↔
      base.below names ∈ t.generated base ∧ ∀ file ∈ s.files, file.names ≠ names := by
  rw [stale, List.mem_filter, Bool.not_eq_true', ← Bool.not_eq_true, List.any_map, List.any_eq_true,
    not_exists]
  refine and_congr_right fun _ => forall_congr' fun file => ?_
  rw [not_and]
  refine imp_congr_right fun hfile => not_congr ?_
  exact (hplain file hfile).same_below_iff hnames base

/-- A run that writes deletes what is stale and then writes its files. -/
theorem runs_writeAll {s : OutputSet} {report : WriteReport} :
    Runs (writeAll base s) t report t' ↔ ∃ t₁,
      Runs ((stale t base s).forM (deleteGenerated base)) t () t₁ ∧
      Runs (writeEach base s.files) t₁ (report.written, report.unchanged) t' ∧
      report.deleted = stale t base s := by
  constructor
  · intro h
    obtain ⟨t₀, _, hget, hrun⟩ := runs_bind.mp h
    obtain ⟨rfl, rfl⟩ := runs_get.mp hget
    obtain ⟨_, t₁, hdelete, hrun⟩ := runs_bind.mp hrun
    obtain ⟨⟨written, unchanged⟩, t₂, hwrite, hpure⟩ := runs_bind.mp hrun
    obtain ⟨rfl, rfl⟩ := runs_pure.mp hpure
    exact ⟨t₁, hdelete, hwrite, rfl⟩
  · rintro ⟨t₁, hdelete, hwrite, hstale⟩
    refine runs_bind.mpr ⟨t, t, runs_get.mpr ⟨rfl, rfl⟩, runs_bind.mpr ⟨(), t₁, hdelete, ?_⟩⟩
    refine runs_bind.mpr ⟨_, t', hwrite, runs_pure.mpr ⟨?_, rfl⟩⟩
    obtain ⟨written, unchanged, deleted⟩ := report
    cases hstale
    rfl

/-- If nothing is stale, a run with one file writes it, unless the file is up to date. -/
theorem runs_writeAll_single {file : OutputFile} (hstale : stale t base ⟨[file]⟩ = [])
    (hfull : file.fullPath base = p) (htext : t.text? p ≠ some file.content)
    (hwrite : Runs (write p (.text file.content)) t () t') :
    Runs (writeAll base ⟨[file]⟩) t ⟨[file.path], [], []⟩ t' := by
  subst hfull
  refine runs_writeAll.mpr ⟨t, hstale ▸ runs_pure.mpr ⟨rfl, rfl⟩, ?_, hstale.symm⟩
  exact runs_writeEach_cons.mpr ⟨true, t', ([], []),
    runs_writeIfChanged.mpr (.inr ⟨rfl, htext, hwrite⟩), runs_writeEach_nil.mpr ⟨rfl, rfl⟩, rfl⟩

/-- A run that cleans deletes the generated files that it lists. -/
theorem runs_clean {files : List Path} :
    Runs (clean base false) t files t' ↔
      Runs ((t.generated base).forM (deleteGenerated base)) t () t' ∧ files = t.generated base := by
  constructor
  · intro h
    obtain ⟨t₀, _, hget, hrun⟩ := runs_bind.mp h
    obtain ⟨rfl, rfl⟩ := runs_get.mp hget
    obtain ⟨_, t₁, hdelete, hpure⟩ := runs_bind.mp hrun
    obtain ⟨rfl, rfl⟩ := runs_pure.mp hpure
    exact ⟨hdelete, rfl⟩
  · rintro ⟨hdelete, rfl⟩
    exact runs_bind.mpr ⟨t, t, runs_get.mpr ⟨rfl, rfl⟩,
      runs_bind.mpr ⟨(), t', hdelete, runs_pure.mpr ⟨rfl, rfl⟩⟩⟩

end Disk

end Declgen.Files
