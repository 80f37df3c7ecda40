import Declgen.Proofs.Files.Deleting

/-!
# Files without the marker

No run deletes a file without the marker line. A run changes such a file only by writing to it:
a file that holds the text which was planned last for its place has been overwritten, and all other
files without the marker are as before. This holds for all trees, with links or without, and no
matter where a run fails.
-/

namespace Declgen.Files

open Disk Files.Tree

/-- A content that is no text or has no marker line. -/
def Content.Unmarked : Content → Prop
  | .text s => isGenerated s = false
  | .bytes _ => True

/-- A run over the tree. -/
inductive Job where
  /-- Writing the files of a set below a base. -/
  | write (base : Path) (s : OutputSet)
  /-- Cleaning what is below a base, or only listing it. -/
  | clean (base : Path) (dry : Bool)

namespace Job

/-- The tree that a run leaves, whether it fails or not. -/
def leaves : Job → Tree → Tree
  | write base s, t => Disk.leaves (writeAll base s) t
  | clean base dry, t => Disk.leaves (Disk.clean base dry) t

/-- The tree that several runs leave, one after the other. -/
def leavesAll (jobs : List Job) (t : Tree) : Tree := jobs.foldl (fun t job => job.leaves t) t

/-- A run does not fail. -/
def Succeeds (t : Tree) : Job → Prop
  | write base s => ∃ report t', Runs (writeAll base s) t report t'
  | clean base dry => ∃ files t', Runs (Disk.clean base dry) t files t'

/-- The files of a run whose paths lead to a place, in order. -/
def planned (t : Tree) (key : Key) : Job → List OutputFile
  | write base s => s.files.filter fun file => t.locate true (file.fullPath base) = .taken key
  | clean _ _ => []

/-- A run leaves a well-formed tree. -/
theorem wellFormed_leaves {t : Tree} (h : t.WellFormed) (job : Job) :
    (job.leaves t).WellFormed := by
  cases job with
  | write base s => exact closed_wellFormed.writeAll base s t h
  | clean base dry => exact closed_wellFormed.clean base dry t h

/-- Several runs leave a well-formed tree. -/
theorem wellFormed_leavesAll {t : Tree} (h : t.WellFormed) (jobs : List Job) :
    (leavesAll jobs t).WellFormed := by
  induction jobs generalizing t with
  | nil => exact h
  | cons job jobs ih => exact ih (wellFormed_leaves h job)

end Job

variable {t t' : Tree} {base : Path} {key : Key} {content : Content}

/-! ### Deleting -/

/-- The deletion of listed files does not touch files without the marker. -/
theorem entry?_of_deletions (ht : t.WellFormed) {paths : List Path}
    (hpaths : ∀ p ∈ paths, p ∈ t.generated base) (hentry : t.entry? key = some (.file content))
    (hmark : content.Unmarked) :
    Tree.entry? (Disk.leaves (paths.forM (deleteGenerated base)) t) key = some (.file content) := by
  have hthinned := thinned_deletions t base
    fun p hp key hlocate => ht.entry?_of_generated (hpaths p hp) hlocate
  refine hthinned.kept key _ hentry nofun ?_
  rintro ⟨s, hentry', hgenerated⟩
  cases hentry.symm.trans hentry'
  have hunmarked : isGenerated s = false := hmark
  rw [hgenerated] at hunmarked
  cases hunmarked

/-! ### Writing -/

/-- A file holds its old content, or the text of a file whose path leads to it. -/
def HoldsOneOf (base : Path) (files : List OutputFile) (key : Key) (content : Content)
    (t : Tree) : Prop :=
  t.entry? key = some (.file content) ∨ ∃ file ∈ files,
    t.locate true (file.fullPath base) = .taken key ∧
      t.entry? key = some (.file (.text file.content))

/-- No write takes a file away from its place. -/
theorem preserves_holdsOneOf (base : Path) (files : List OutputFile) (key : Key)
    (content : Content) :
    Preserves (HoldsOneOf base files key content) (writeEach base files) := by
  refine preserves_writeEach (fun t t' folder h hmake => ?_) fun file hfile t t' h hwrite => ?_
  · have hextends := extends_withFolder? hmake
    rcases h with h | ⟨file, hfile, hlocate, hentry⟩
    · exact .inl (hextends.entry key _ h)
    · exact .inr ⟨file, hfile, hextends.locate hlocate, hextends.entry key _ hentry⟩
  · obtain ⟨place, hwrote, -⟩ := exists_wrote_of_withFile? hwrite
    by_cases hplace : key = place
    · subst hplace
      exact .inr ⟨file, hfile, hwrote.locate, hwrote.entry⟩
    · rcases h with h | ⟨other, hother, hlocate, hentry⟩
      · exact .inl (hwrote.other key _ hplace h)
      · exact .inr ⟨other, hother, hwrote.keeps.locate hlocate,
          hwrote.other key _ hplace hentry⟩

/-- After files have been written, an old file holds the text of the last one whose path leads to
it. -/
theorem Tree.WroteAll.entry?_eq {files : List OutputFile} (h : WroteAll base t files t')
    (hentry : t.entry? key = some (.file content)) :
    t'.entry? key = some (.file (((files.filter fun file =>
      t'.locate true (file.fullPath base) = .taken key).getLast?.map
        fun file => Content.text file.content).getD content)) := by
  induction h generalizing content with
  | nil => exact hentry
  | @cons t t₁ t' first files place wrote rest ih =>
    have hlocate := rest.keeps.locate wrote.locate
    by_cases hplace : key = place
    · subst hplace
      rw [List.filter_cons_of_pos (by simpa using hlocate), ih wrote.entry, List.getLast?_cons]
      cases (files.filter _).getLast? <;> rfl
    · have hne : place ≠ key := fun heq => hplace heq.symm
      rw [List.filter_cons_of_neg (by simpa [hlocate] using hne)]
      exact ih (wrote.other key _ hplace hentry)

/-! ### Runs -/

/-- A file without the marker that exists before a run is still a file after it. It holds its old
content, or a text that the run has written there because one of its paths leads to the file. If the
run succeeds, the file holds the text that was planned last for its place, or its old content if
nothing was planned. -/
theorem unmarked_files (ht : t.WellFormed) (jobs : List Job) (job : Job) {t₁ : Tree}
    (hjobs : Job.leavesAll jobs t = t₁) (hjob : job.leaves t₁ = t')
    (hentry : t₁.entry? key = some (.file content)) (hmark : content.Unmarked) :
    (t'.entry? key = some (.file content) ∨ ∃ file ∈ job.planned t' key,
      t'.entry? key = some (.file (.text file.content))) ∧
    (job.Succeeds t₁ → t'.entry? key = some (.file
      (((job.planned t' key).getLast?.map fun file => Content.text file.content).getD
        content))) := by
  have ht₁ : t₁.WellFormed := hjobs ▸ Job.wellFormed_leavesAll ht jobs
  subst hjob
  cases job with
  | clean base dry =>
    suffices hkept :
        Tree.entry? (Disk.leaves (Disk.clean base dry) t₁) key = some (.file content) from
      ⟨.inl hkept, fun _ => hkept⟩
    cases dry with
    | true => exact hentry
    | false =>
      have hdeleted := entry?_of_deletions ht₁ (fun p (hp : p ∈ t₁.generated base) => hp) hentry
        hmark
      rw [Disk.clean, leaves_get_bind]
      exact leaves_bind (I := fun t => t.entry? key = some (.file content)) hdeleted
        fun _ => preserves_pure _
  | write base s =>
    have hdeleted := entry?_of_deletions ht₁
      (fun p (hp : p ∈ stale t₁ base s) => (List.mem_filter.mp hp).1) hentry hmark
    constructor
    · have hholds : HoldsOneOf base s.files key content ((Job.write base s).leaves t₁) := by
        rw [Job.leaves, writeAll, leaves_get_bind]
        exact leaves_bind (.inl hdeleted) fun _ => preserves_bind
          (preserves_holdsOneOf base s.files key content) fun _ => preserves_pure _
      refine Or.imp_right ?_ hholds
      rintro ⟨file, hfile, hlocate, htext⟩
      exact ⟨file, List.mem_filter.mpr ⟨hfile, decide_eq_true hlocate⟩, htext⟩
    · rintro ⟨report, t', hrun⟩
      obtain ⟨t₂, hdelete, hwrite, -⟩ := runs_writeAll.mp hrun
      rw [hdelete.leaves_eq] at hdeleted
      have hleaves : (Job.write base s).leaves t₁ = t' := hrun.leaves_eq
      rw [hleaves]
      exact (wroteAll_of_writeEach hwrite).entry?_eq hdeleted

/-! ### An overwritten file -/

/-- An output folder with a file that somebody has written by hand. -/
def handwritten : Tree :=
  ⟨[], [(["out"], .folder), (["out", "a.ts"], .file (.text "export type Mine = {};\n"))]⟩

/-- A generated file for the same place. -/
def replacement : OutputFile := ⟨"a.ts", "// contractgen: generated content, do not edit\n"⟩

/-- The output folder after the generated file has been written. -/
def replaced : Tree := handwritten.put ["out", "a.ts"] (.file (.text replacement.content))

/-- The output folder is well formed. -/
theorem handwritten_wellFormed : handwritten.WellFormed :=
  ⟨by decide +kernel, by decide +kernel, by decide +kernel⟩

/-- The file in it has no marker. -/
theorem handwritten_unmarked : Content.Unmarked (.text "export type Mine = {};\n") := by
  rw [Content.Unmarked]
  decide +kernel

/-- The run writes the generated file and reports it as written. -/
theorem runs_replacement :
    Runs (writeAll ⟨"out"⟩ ⟨[replacement]⟩) handwritten ⟨["a.ts"], [], []⟩ replaced := by
  have hfolder : handwritten.locate true ⟨"out"⟩ = .taken ["out"] :=
    locate_eq_of_walkWithin 4 (by decide +kernel)
  have hfile : handwritten.locate true ⟨"out/a.ts"⟩ = .taken ["out", "a.ts"] :=
    locate_eq_of_walkWithin 4 (by decide +kernel)
  have hstale : stale handwritten ⟨"out"⟩ ⟨[replacement]⟩ = [] := by
    rw [stale, generated, reachable, hfolder]
    decide +kernel
  have hfull : replacement.fullPath ⟨"out"⟩ = ⟨"out/a.ts"⟩ := by decide +kernel
  refine runs_writeAll_single hstale hfull ?_
    (runs_write_of_isFolder ⟨"out"⟩ (by decide +kernel) (fun _ => by decide +kernel) ?_ ?_)
  · rw [text?_eq hfile rfl]
    decide +kernel
  · have hfolders : ⟨"out"⟩ :: Path.ancestors ⟨"out"⟩ = [(⟨"out"⟩ : Path), ⟨""⟩] := by
      decide +kernel
    simpa [hfolders] using isFolder_of_locate hfolder rfl
  · rw [withFile?, hfile]
    rfl

/-- A file without the marker is lost if a run plans a file for its place. -/
theorem unmarked_overwritten :
    handwritten.WellFormed ∧
    handwritten.entry? ["out", "a.ts"] = some (.file (.text "export type Mine = {};\n")) ∧
    Content.Unmarked (.text "export type Mine = {};\n") ∧
    Runs (writeAll ⟨"out"⟩ ⟨[replacement]⟩) handwritten ⟨["a.ts"], [], []⟩ replaced ∧
    replaced.entry? ["out", "a.ts"] = some (.file (.text replacement.content)) ∧
    replacement.content ≠ "export type Mine = {};\n" :=
  ⟨handwritten_wellFormed, rfl, handwritten_unmarked, runs_replacement, by decide +kernel,
    by decide +kernel⟩

/-- The general theorem at this run. -/
theorem unmarked_files_replaced :
    replaced.entry? ["out", "a.ts"] = some (.file (.text replacement.content)) := by
  have hentry : handwritten.entry? ["out", "a.ts"] =
      some (.file (.text "export type Mine = {};\n")) := rfl
  have hwritten := (unmarked_files handwritten_wellFormed [] (.write ⟨"out"⟩ ⟨[replacement]⟩) rfl
    runs_replacement.leaves_eq hentry handwritten_unmarked).2 ⟨_, _, runs_replacement⟩
  have hplanned : (Job.write ⟨"out"⟩ ⟨[replacement]⟩).planned replaced ["out", "a.ts"] =
      [replacement] := by
    have hlocate : replaced.locate true (replacement.fullPath ⟨"out"⟩) = .taken ["out", "a.ts"] :=
      locate_eq_of_walkWithin 4 (by decide +kernel)
    simp [Job.planned, hlocate]
  rwa [hplanned] at hwritten

end Declgen.Files
