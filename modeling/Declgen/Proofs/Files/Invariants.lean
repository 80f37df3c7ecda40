import Declgen.Proofs.Files.Writing

/-!
# Invariants of runs

A run changes a tree by four operations: it makes a folder, writes a file, deletes a file, or
removes an empty folder. What these operations keep, every run keeps, no matter where it fails.
-/

namespace Declgen.Files

namespace Disk

variable {α β : Type} {I : Tree → Prop}

/-- The tree that a computation leaves behind, whether it fails or not. -/
def leaves (d : Disk α) (t : Tree) : Tree := (d.run.run t).2

/-- A computation that does not fail leaves the tree that its run ends with. -/
theorem Runs.leaves_eq {d : Disk α} {t t' : Tree} {a : α} (h : Runs d t a t') :
    leaves d t = t' := congrArg Prod.snd h

/-- Reading the tree leaves it as it is. -/
theorem leaves_get_bind (f : Tree → Disk α) (t : Tree) :
    leaves (get >>= f) t = leaves (f t) t := rfl

/-- A computation that starts in a tree with `I` leaves a tree with `I`. -/
def Preserves (I : Tree → Prop) (d : Disk α) : Prop := ∀ t, I t → I (leaves d t)

/-- What a computation keeps holds after its run. -/
theorem Preserves.of_runs {d : Disk α} {t t' : Tree} {a : α} (h : Preserves I d)
    (hrun : Runs d t a t') (ht : I t) : I t' := hrun.leaves_eq ▸ h t ht

/-- Returning a value keeps everything. -/
theorem preserves_pure (a : α) : Preserves I (pure a) := fun _ h => h

/-- Failing keeps everything. -/
theorem preserves_throw (e : DiskError) : Preserves I (throw e : Disk α) := fun _ h => h

/-- Reading the tree keeps everything. -/
theorem preserves_get : Preserves I get := fun _ h => h

/-- What the first of two computations leaves with `I`, both of them do if the second one keeps
`I`. -/
theorem leaves_bind {d : Disk α} {f : α → Disk β} {t : Tree} (hd : I (leaves d t))
    (hf : ∀ a, Preserves I (f a)) : I (leaves (d >>= f) t) := by
  have hfirst : I (d.run.run t).2 := hd
  rw [leaves, ExceptT.run_bind, StateT.run_bind]
  generalize d.run.run t = r at hfirst
  obtain ⟨e | a, t'⟩ := r
  · exact hfirst
  · exact hf a t' hfirst

/-- What two computations keep they keep one after the other. -/
theorem preserves_bind {d : Disk α} {f : α → Disk β} (hd : Preserves I d)
    (hf : ∀ a, Preserves I (f a)) : Preserves I (d >>= f) :=
  fun t ht => leaves_bind (hd t ht) hf

/-- A change keeps what its function keeps. -/
theorem preserves_change {f : Tree → Option Tree} {e : DiskError}
    (h : ∀ t t', I t → f t = some t' → I t') : Preserves I (change f e) := by
  intro t ht
  rw [change, leaves_get_bind]
  cases hf : f t with
  | none => exact ht
  | some t' => exact h t t' ht hf

/-- What is kept for every element is kept by going through all of them. -/
theorem preserves_forM {f : α → Disk Unit} {as : List α} (hf : ∀ a ∈ as, Preserves I (f a)) :
    Preserves I (as.forM f) := by
  induction as with
  | nil => exact preserves_pure ()
  | cons a as ih =>
    exact preserves_bind (hf a List.mem_cons_self) fun _ =>
      ih fun b hb => hf b (List.mem_cons_of_mem _ hb)

/-! ### Writing and deleting -/

variable {base p : Path}

/-- Making a folder keeps what making one level keeps. -/
theorem preserves_makeFolder
    (hfolder : ∀ t t' folder, I t → t.withFolder? folder = some t' → I t') :
    Preserves I (makeFolder p) := by
  unfold makeFolder
  split
  · exact preserves_pure ()
  · split
    · exact preserves_throw _
    · exact preserves_forM fun folder _ => preserves_change fun t t' => hfolder t t' folder

/-- Writing a file keeps what making a folder and writing keep. -/
theorem preserves_write {content : Content}
    (hfolder : ∀ t t' folder, I t → t.withFolder? folder = some t' → I t')
    (hfile : ∀ t t', I t → t.withFile? p content = some t' → I t') :
    Preserves I (write p content) := by
  unfold write
  dsimp only
  split
  · exact preserves_bind (preserves_makeFolder hfolder) fun _ => preserves_change hfile
  · exact preserves_change hfile

/-- Writing files keeps what making a folder and writing each of them keep. -/
theorem preserves_writeEach {files : List OutputFile}
    (hfolder : ∀ t t' folder, I t → t.withFolder? folder = some t' → I t')
    (hfile : ∀ file ∈ files, ∀ t t', I t →
      t.withFile? (file.fullPath base) (.text file.content) = some t' → I t') :
    Preserves I (writeEach base files) := by
  induction files with
  | nil => exact preserves_pure _
  | cons file files ih =>
    refine preserves_bind ?_ fun changed => preserves_bind
      (ih fun other hother => hfile other (List.mem_cons_of_mem _ hother)) fun _ => preserves_pure _
    refine preserves_bind preserves_get fun t => ?_
    split
    · exact preserves_pure _
    · exact preserves_bind (preserves_write hfolder (hfile file List.mem_cons_self))
        fun _ => preserves_pure _

/-- Pruning keeps what removing an empty folder keeps. -/
theorem preserves_prune {folders : List Path}
    (hfolder : ∀ t t' folder, I t → t.withoutFolder? folder = some t' → I t') :
    Preserves I (prune folders) := by
  induction folders with
  | nil => exact preserves_pure ()
  | cons folder folders ih =>
    refine preserves_bind preserves_get fun t => ?_
    split
    · exact preserves_throw _
    · exact preserves_pure ()
    · exact preserves_bind (preserves_change fun t t' => hfolder t t' folder) fun _ => ih

/-- Deleting a generated file keeps what deleting a file and removing a folder keep. -/
theorem preserves_deleteGenerated
    (hfile : ∀ t t', I t → t.withoutFile? p = some t' → I t')
    (hfolder : ∀ t t' folder, I t → t.withoutFolder? folder = some t' → I t') :
    Preserves I (deleteGenerated base p) :=
  preserves_bind (preserves_change hfile) fun _ => preserves_prune hfolder

/-- All four operations keep `I`. -/
structure Closed (I : Tree → Prop) : Prop where
  /-- Making a folder. -/
  withFolder : ∀ t t' p, I t → t.withFolder? p = some t' → I t'
  /-- Writing a file. -/
  withFile : ∀ t t' p content, I t → t.withFile? p content = some t' → I t'
  /-- Deleting a file. -/
  withoutFile : ∀ t t' p, I t → t.withoutFile? p = some t' → I t'
  /-- Removing a folder. -/
  withoutFolder : ∀ t t' p, I t → t.withoutFolder? p = some t' → I t'

/-- Deletions keep what all operations keep. -/
theorem Closed.deletions (h : Closed I) (base : Path) (paths : List Path) :
    Preserves I (paths.forM (deleteGenerated base)) :=
  preserves_forM fun p _ =>
    preserves_deleteGenerated (fun t t' => h.withoutFile t t' p) h.withoutFolder

/-- Writing files keeps what all operations keep. -/
theorem Closed.writeEach (h : Closed I) (base : Path) (files : List OutputFile) :
    Preserves I (writeEach base files) :=
  preserves_writeEach h.withFolder fun _ _ t t' => h.withFile t t' _ _

/-- What the operations keep, writing the files of a run keeps. -/
theorem Closed.writeAll (h : Closed I) (base : Path) (s : OutputSet) :
    Preserves I (writeAll base s) :=
  preserves_bind preserves_get fun _ => preserves_bind (h.deletions base _) fun _ =>
    preserves_bind (h.writeEach base _) fun _ => preserves_pure _

/-- What the operations keep, cleaning keeps. -/
theorem Closed.clean (h : Closed I) (base : Path) (dry : Bool) :
    Preserves I (clean base dry) := by
  refine preserves_bind preserves_get fun t => ?_
  cases dry with
  | true => exact preserves_pure _
  | false => exact preserves_bind (h.deletions base _) fun _ => preserves_pure _

end Disk

end Declgen.Files
