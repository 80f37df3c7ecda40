import Declgen.Files.OutputSet
import Declgen.Proofs.Files.Trees

/-!
# Writing files

Writing a file only adds folders and puts its text where its path leads. So after files have been
written one after the other, each of them holds its own text, unless the path of a later one leads
to the same place.
-/

namespace Declgen.Files

namespace Disk

variable {α β : Type}

/-- A computation turns one tree into another and gives a value. -/
def Runs (d : Disk α) (t : Tree) (a : α) (t' : Tree) : Prop := d.run.run t = (.ok a, t')

/-- Returning a value leaves the tree as it is. -/
theorem runs_pure {t t' : Tree} {a b : α} : Runs (pure a) t b t' ↔ b = a ∧ t' = t := by
  change (Except.ok a, t) = (Except.ok b, t') ↔ _
  rw [Prod.mk.injEq, Except.ok.injEq, eq_comm, @eq_comm _ t]

/-- A failure is no successful run. -/
theorem runs_throw {t t' : Tree} {e : DiskError} {a : α} : ¬Runs (throw e) t a t' := by
  change ¬(Except.error e, t) = (Except.ok a, t')
  simp

/-- A run of two computations is one after the other. -/
theorem runs_bind {d : Disk α} {f : α → Disk β} {t t' : Tree} {b : β} :
    Runs (d >>= f) t b t' ↔ ∃ a t'', Runs d t a t'' ∧ Runs (f a) t'' b t' := by
  simp only [Runs, ExceptT.run_bind, StateT.run_bind]
  rcases d.run.run t with ⟨e | a, t''⟩
  · constructor
    · intro h
      cases h
    · rintro ⟨a, t₁, h, -⟩
      cases h
  · constructor
    · exact fun h => ⟨a, t'', rfl, h⟩
    · rintro ⟨a', t₁, h, hrun⟩
      cases h
      exact hrun

/-- Reading the tree gives the tree. -/
theorem runs_get {t t' t'' : Tree} : Runs get t t' t'' ↔ t' = t ∧ t'' = t := by
  change (Except.ok t, t) = (Except.ok t', t'') ↔ _
  rw [Prod.mk.injEq, Except.ok.injEq, eq_comm, @eq_comm _ t t'']

/-- A change succeeds if its function has a result. -/
theorem runs_change {f : Tree → Option Tree} {e : DiskError} {t t' : Tree} {a : Unit} :
    Runs (change f e) t a t' ↔ f t = some t' := by
  rw [change, runs_bind]
  constructor
  · rintro ⟨t₁, t₂, hget, hrun⟩
    obtain ⟨rfl, rfl⟩ := runs_get.mp hget
    split at hrun
    · rename_i t₃ hf
      change (Except.ok (), t₃) = (Except.ok a, t') at hrun
      rw [hf, (Prod.mk.inj hrun).2]
    · exact absurd hrun runs_throw
  · intro hf
    refine ⟨t, t, runs_get.mpr ⟨rfl, rfl⟩, ?_⟩
    rw [hf]
    rfl

/-- What every step of a loop keeps, and what carries over from step to step, the whole loop
keeps. -/
theorem Runs.forM {f : α → Disk Unit} {r : Tree → Tree → Prop} (hrefl : ∀ t, r t t)
    (htrans : ∀ t t' t'', r t t' → r t' t'' → r t t'')
    (hf : ∀ a t t', Runs (f a) t () t' → r t t') {as : List α} {t t' : Tree}
    (h : Runs (as.forM f) t () t') : r t t' := by
  induction as generalizing t with
  | nil =>
    obtain ⟨-, rfl⟩ := runs_pure.mp h
    exact hrefl t'
  | cons a as ih =>
    obtain ⟨_, t'', hstep, hrest⟩ := runs_bind.mp h
    exact htrans _ _ _ (hf a t t'' hstep) (ih hrest)

end Disk

/-! ### One file -/

namespace Tree

variable {t t' : Tree} {p : Path} {key : Key}

/-- Where the way along a path begins. -/
def start (t : Tree) (p : Path) : Position :=
  ⟨linkLimit, if p.isAbsolute then [] else t.home, p.segments⟩

/-- Where a usable path leads is told by the way from its start. -/
theorem locate_eq (hp : p.isUsable = true) : t.locate true p = t.siteAt (t.start p) := by
  rw [locate, hp]
  rfl

/-- A path that does not lead nowhere is usable. -/
theorem usable_of_locate {follow : Bool} {site : Site} (h : t.locate follow p = site)
    (hsite : site ≠ .nowhere) : p.isUsable = true := by
  cases hp : p.isUsable with
  | true => rfl
  | false =>
    rw [locate, hp] at h
    exact absurd h.symm hsite

/-- A path that leads to an entry is usable. -/
theorem usable_of_taken {follow : Bool} (h : t.locate follow p = .taken key) :
    p.isUsable = true :=
  usable_of_locate h (by simp)

/-- Ways start from the same folder in a tree that keeps the entries. -/
theorem Keeps.start_eq (h : Keeps t t') (p : Path) : t'.start p = t.start p := by
  rw [start, start, h.home]

/-- A path that leads to an entry still leads there. -/
theorem Keeps.locate (h : Keeps t t') (hlocate : t.locate true p = .taken key) :
    t'.locate true p = .taken key := by
  have hp := usable_of_taken hlocate
  rw [locate_eq hp] at hlocate ⊢
  rw [h.start_eq]
  exact h.siteAt hlocate

/-- There is nothing at a free place. -/
theorem entry?_of_free {follow slash : Bool} (h : t.locate follow p = .free key slash) :
    t.entry? key = none := by
  have hwalk {links : Nat} {here : Key} {segments : List String}
      (h : t.walk follow links here segments = .free key slash) : t.entry? key = none := by
    fun_induction t.walk follow links here segments with
    | case5 links here segment rest hfolder hidle hup place hnone hrest =>
      rw [← (Site.free.inj h).1]
      exact hnone
    | case3 links here segment rest hfolder hidle ih => exact ih h
    | case4 links here rest hfolder hidle ih => exact ih h
    | case9 here segment rest hfolder hidle hup place target hlink hrest links start ih =>
      exact ih h
    | case10 links here segment rest hfolder hidle hup place e hlink hentry ih => exact ih h
    | _ => cases h
  rw [locate] at h
  split at h
  · cases h
  · exact hwalk h

/-- Making a folder takes nothing away. -/
theorem extends_withFolder? (h : t.withFolder? p = some t') : Extends t t' := by
  unfold withFolder? at h
  split at h
  · cases h
    exact .refl t
  · split at h
    · rename_i key slash hlocate
      cases h
      exact .put (entry?_of_free hlocate) .folder
    · cases h

/-- A file has been written: its path leads to its content, and everything else is as before, up to
new folders. -/
structure Wrote (t : Tree) (p : Path) (content : Content) (key : Key) (t' : Tree) : Prop where
  /-- Folders and links stay, and files stay files. -/
  keeps : Keeps t t'
  /-- The path leads to a place. -/
  locate : t'.locate true p = .taken key
  /-- The content is there. -/
  entry : t'.entry? key = some (.file content)
  /-- Entries at other places are as before. -/
  other : ∀ key' e, key' ≠ key → t.entry? key' = some e → t'.entry? key' = some e

/-- What a file holds can be read back through its path. -/
theorem Wrote.of_extends {t'' : Tree} {content : Content} (h : Extends t t')
    (h' : Wrote t' p content key t'') : Wrote t p content key t'' :=
  ⟨h.keeps.trans h'.keeps, h'.locate, h'.entry,
    fun key' e hne hkey => h'.other key' e hne (h.entry key' e hkey)⟩

/-- A file that could be written stands where its path leads. -/
theorem exists_wrote_of_withFile? {content : Content} (h : t.withFile? p content = some t') :
    ∃ key, Wrote t p content key t' ∧ t' = t.put key (.file content) := by
  have hput {key : Key} (hne : key ≠ []) :
      (Tree.entry? (t.put key (.file content)) key = some (.file content)) ∧
        ∀ key' e, key' ≠ key → t.entry? key' = some e →
          Tree.entry? (t.put key (.file content)) key' = some e := by
    refine ⟨by rw [t.entry?_put hne, if_pos rfl], fun key' e hkey he => ?_⟩
    rwa [t.entry?_put hne, if_neg hkey]
  unfold withFile? at h
  split at h
  · rename_i key slash hlocate
    split at h
    · cases h
    · rename_i hslash
      obtain rfl : slash = false := by simpa using hslash
      cases h
      have hnone := entry?_of_free hlocate
      have hne : key ≠ [] := fun heq => by simp [heq, t.entry?_nil] at hnone
      have hp := usable_of_locate hlocate nofun
      refine ⟨key, ⟨(Extends.put hnone _).keeps, ?_, (hput hne).1, (hput hne).2⟩, rfl⟩
      rw [locate_eq hp] at hlocate ⊢
      exact siteAt_put hlocate content
  · rename_i key hlocate
    split at h
    · rename_i old hold
      cases h
      have hne : key ≠ [] := fun heq => by simp [heq, t.entry?_nil] at hold
      have hkeeps : Keeps t (t.put key (.file content)) := .put hold
      exact ⟨key, ⟨hkeeps, hkeeps.locate hlocate, (hput hne).1, (hput hne).2⟩, rfl⟩
    · cases h
  · cases h

/-- A path that leads to a folder is known as one. -/
theorem isFolder_of_locate (hlocate : t.locate true p = .taken key)
    (hkey : t.entry? key = some .folder) : t.isFolder p = true := by
  rw [isFolder, get?, hlocate]
  exact decide_eq_true hkey

/-- The text that a path leads to. -/
theorem text?_eq {content : String} (hlocate : t.locate true p = .taken key)
    (hkey : t.entry? key = some (.file (.text content))) : t.text? p = some content := by
  rw [text?, get?, hlocate]
  simp [hkey]

/-- A text that can be read stands where the path leads. -/
theorem exists_of_text? {content : String} (h : t.text? p = some content) :
    ∃ key, t.locate true p = .taken key ∧ t.entry? key = some (.file (.text content)) := by
  unfold text? get? at h
  split at h
  · rename_i s hget
    cases h
    split at hget
    · rename_i key hlocate
      exact ⟨key, hlocate, hget⟩
    · cases hget
  · cases h

end Tree

namespace Disk

open Files.Tree

variable {t t' : Tree} {base p : Path}

/-- Making a folder takes nothing away. -/
theorem extends_makeFolder (h : Runs (makeFolder p) t () t') : Extends t t' := by
  unfold makeFolder at h
  split at h
  · obtain ⟨-, rfl⟩ := runs_pure.mp h
    exact .refl t'
  · split at h
    · exact absurd h runs_throw
    · exact Runs.forM (r := Extends) Extends.refl (fun _ _ _ => Extends.trans)
        (fun folder t t' hstep => extends_withFolder? (runs_change.mp hstep)) h

/-- Writing into a folder that is there makes no folder. -/
theorem runs_write_of_isFolder (folder : Path) {content : Content}
    (hparent : p.parent? = some folder)
    (husable : folder.text.isEmpty = false → folder.isUsable = true)
    (hfolders : ∀ above ∈ folder :: folder.ancestors, above.text.isEmpty = false →
      t.isFolder above = true)
    (hwrite : t.withFile? p content = some t') : Runs (write p content) t () t' := by
  have hmake : ∀ folders : List Path, (∀ above ∈ folders, t.isFolder above = true) →
      Runs (folders.forM fun above => change (·.withFolder? above) (.createFolder folder))
        t () t := by
    intro folders hfolders
    induction folders with
    | nil => exact runs_pure.mpr ⟨rfl, rfl⟩
    | cons above folders ih =>
      refine runs_bind.mpr ⟨(), t, runs_change.mpr ?_,
        ih fun other hother => hfolders other (List.mem_cons_of_mem _ hother)⟩
      rw [withFolder?, if_pos (hfolders above List.mem_cons_self)]
  unfold write
  rw [hparent]
  refine runs_bind.mpr ⟨(), t, ?_, runs_change.mpr hwrite⟩
  unfold makeFolder
  split
  · exact runs_pure.mpr ⟨rfl, rfl⟩
  · rename_i hempty
    rw [husable (by simpa using hempty), Bool.not_true, if_neg Bool.false_ne_true]
    refine hmake _ fun above habove => ?_
    rw [List.mem_filter, List.mem_reverse, Bool.not_eq_true'] at habove
    exact hfolders above habove.1 habove.2

/-- A file that has been written with the folders above it stands where its path leads. -/
theorem exists_wrote_of_write {content : Content} (h : Runs (write p content) t () t') :
    ∃ key, Wrote t p content key t' := by
  unfold write at h
  dsimp only at h
  split at h
  · obtain ⟨_, t₁, hfolder, hchange⟩ := runs_bind.mp h
    obtain ⟨key, hwrote, -⟩ := exists_wrote_of_withFile? (runs_change.mp hchange)
    exact ⟨key, hwrote.of_extends (extends_makeFolder hfolder)⟩
  · obtain ⟨key, hwrote, -⟩ := exists_wrote_of_withFile? (runs_change.mp h)
    exact ⟨key, hwrote⟩

/-- A file is left alone if it holds the text already, and written otherwise. -/
theorem runs_writeIfChanged {file : OutputFile} {changed : Bool} :
    Runs (writeIfChanged base file) t changed t' ↔
      (changed = false ∧ t.text? (file.fullPath base) = some file.content ∧ t' = t) ∨
      (changed = true ∧ t.text? (file.fullPath base) ≠ some file.content ∧
        Runs (write (file.fullPath base) (.text file.content)) t () t') := by
  constructor
  · intro h
    obtain ⟨t₁, t₂, hget, hrun⟩ := runs_bind.mp h
    obtain ⟨rfl, rfl⟩ := runs_get.mp hget
    split at hrun
    · rename_i htext
      obtain ⟨rfl, rfl⟩ := runs_pure.mp hrun
      exact .inl ⟨rfl, htext, rfl⟩
    · rename_i htext
      obtain ⟨_, t₃, hwrite, hpure⟩ := runs_bind.mp hrun
      obtain ⟨rfl, rfl⟩ := runs_pure.mp hpure
      exact .inr ⟨rfl, htext, hwrite⟩
  · rintro (⟨rfl, htext, rfl⟩ | ⟨rfl, htext, hwrite⟩)
    · refine runs_bind.mpr ⟨t', t', runs_get.mpr ⟨rfl, rfl⟩, ?_⟩
      rw [if_pos htext]
      exact runs_pure.mpr ⟨rfl, rfl⟩
    · refine runs_bind.mpr ⟨t, t, runs_get.mpr ⟨rfl, rfl⟩, ?_⟩
      rw [if_neg htext]
      exact runs_bind.mpr ⟨(), t', hwrite, runs_pure.mpr ⟨rfl, rfl⟩⟩

/-- After a write that is left out if the text is there already, the file stands where its path
leads. -/
theorem exists_wrote_of_writeIfChanged {file : OutputFile} {changed : Bool}
    (h : Runs (writeIfChanged base file) t changed t') :
    ∃ key, Wrote t (file.fullPath base) (.text file.content) key t' := by
  rcases runs_writeIfChanged.mp h with ⟨-, htext, rfl⟩ | ⟨-, -, hwrite⟩
  · obtain ⟨key, hlocate, hkey⟩ := exists_of_text? htext
    exact ⟨key, .refl _, hlocate, hkey, fun _ _ _ he => he⟩
  · exact exists_wrote_of_write hwrite

/-- The lists of written and unchanged paths with one more path in front of one of them. -/
def withPath (path : String) (changed : Bool) (paths : List String × List String) :
    List String × List String :=
  if changed then (path :: paths.1, paths.2) else (paths.1, path :: paths.2)

/-- Without files nothing is written. -/
theorem runs_writeEach_nil {paths : List String × List String} :
    Runs (writeEach base []) t paths t' ↔ paths = ([], []) ∧ t' = t := runs_pure

/-- Files are written one after the other. -/
theorem runs_writeEach_cons {file : OutputFile} {files : List OutputFile}
    {paths : List String × List String} :
    Runs (writeEach base (file :: files)) t paths t' ↔ ∃ changed t₁ rest,
      Runs (writeIfChanged base file) t changed t₁ ∧ Runs (writeEach base files) t₁ rest t' ∧
      paths = withPath file.path changed rest := by
  constructor
  · intro h
    obtain ⟨changed, t₁, hfirst, hrun⟩ := runs_bind.mp h
    obtain ⟨rest, t₂, hrest, hpure⟩ := runs_bind.mp hrun
    obtain ⟨rfl, rfl⟩ := runs_pure.mp hpure
    exact ⟨changed, t₁, rest, hfirst, hrest, rfl⟩
  · rintro ⟨changed, t₁, rest, hfirst, hrest, rfl⟩
    exact runs_bind.mpr ⟨changed, t₁, hfirst, runs_bind.mpr
      ⟨rest, t', hrest, runs_pure.mpr ⟨rfl, rfl⟩⟩⟩

end Disk

/-! ### Several files -/

/-- A file with a new path comes last. -/
theorem putFile_of_not_mem {file : OutputFile} {files : List OutputFile}
    (h : file.path ∉ files.map (·.path)) : putFile file files = files ++ [file] := by
  induction files with
  | nil => rfl
  | cons other files ih =>
    rw [List.map_cons, List.mem_cons, not_or] at h
    rw [putFile, if_neg (Ne.symm h.1), ih h.2, List.cons_append]

/-- Files with different paths are all kept, in order. -/
theorem OutputSet.files_addAll {s : OutputSet} {files : List OutputFile}
    (h : ((s.files ++ files).map (·.path)).Nodup) : (s.addAll files).files = s.files ++ files := by
  induction files generalizing s with
  | nil => exact (List.append_nil _).symm
  | cons file files ih =>
    have hnot : file.path ∉ s.files.map (·.path) := fun hmem => by
      rw [List.map_append, List.nodup_append] at h
      exact h.2.2 _ hmem _ List.mem_cons_self rfl
    have hadd : (s.add file).files = s.files ++ [file] := putFile_of_not_mem hnot
    have hstep : (s.addAll (file :: files)).files = ((s.add file).addAll files).files := rfl
    rw [hstep, ih (by rwa [hadd, List.append_assoc]), hadd, List.append_assoc]
    rfl

/-- Files have been written one after the other. -/
inductive Tree.WroteAll (base : Path) : Tree → List OutputFile → Tree → Prop
  /-- Nothing has been written. -/
  | nil (t : Tree) : WroteAll base t [] t
  /-- A file and then the others have been written. -/
  | cons {t t' t'' : Tree} {file : OutputFile} {files : List OutputFile} {key : Key}
      (first : Tree.Wrote t (file.fullPath base) (.text file.content) key t')
      (rest : WroteAll base t' files t'') : WroteAll base t (file :: files) t''

namespace Tree.WroteAll

variable {base : Path} {t t' : Tree} {files : List OutputFile}

/-- Writing files keeps what was there. -/
theorem keeps (h : WroteAll base t files t') : Keeps t t' := by
  induction h with
  | nil t => exact .refl t
  | cons first _ ih => exact first.keeps.trans ih

/-- Entries to which no file is written are as before. -/
theorem other (h : WroteAll base t files t') {key : Key} {e : Entry}
    (hfiles : ∀ file ∈ files, t'.locate true (file.fullPath base) ≠ .taken key)
    (hkey : t.entry? key = some e) : t'.entry? key = some e := by
  induction h with
  | nil => exact hkey
  | cons first rest ih =>
    refine ih (fun file hfile => hfiles file (List.mem_cons_of_mem _ hfile))
      (first.other key e (fun heq => ?_) hkey)
    exact hfiles _ List.mem_cons_self (heq ▸ rest.keeps.locate first.locate)

/-- Every file leads to an entry. -/
theorem exists_locate (h : WroteAll base t files t') {file : OutputFile} (hfile : file ∈ files) :
    ∃ key, t'.locate true (file.fullPath base) = .taken key := by
  induction h with
  | nil => cases hfile
  | cons first rest ih =>
    rcases List.mem_cons.mp hfile with rfl | hfile
    · exact ⟨_, rest.keeps.locate first.locate⟩
    · exact ih hfile

/-- If all files lead to different places, each holds its text. -/
theorem text?_eq (h : WroteAll base t files t')
    (hfiles : files.Pairwise fun file file' =>
      t'.locate true (file.fullPath base) ≠ t'.locate true (file'.fullPath base))
    {file : OutputFile} (hfile : file ∈ files) :
    t'.text? (file.fullPath base) = some file.content := by
  induction h with
  | nil => cases hfile
  | @cons t t₁ t' first files key wrote rest ih =>
    obtain ⟨hfirst, hfiles⟩ := List.pairwise_cons.mp hfiles
    rcases List.mem_cons.mp hfile with rfl | hfile
    · have hlocate := rest.keeps.locate wrote.locate
      refine Tree.text?_eq hlocate (rest.other (fun file' hfile' => ?_) wrote.entry)
      exact hlocate ▸ (hfirst file' hfile').symm
    · exact ih hfiles hfile

end Tree.WroteAll

namespace Disk

variable {base : Path} {t t' : Tree}

/-- Files that have been written one after the other. -/
theorem wroteAll_of_writeEach {files : List OutputFile} {paths : List String × List String}
    (h : Runs (writeEach base files) t paths t') : Tree.WroteAll base t files t' := by
  induction files generalizing t paths with
  | nil =>
    obtain ⟨-, rfl⟩ := runs_writeEach_nil.mp h
    exact .nil t'
  | cons file files ih =>
    obtain ⟨changed, t₁, rest, hfirst, hrest, -⟩ := runs_writeEach_cons.mp h
    obtain ⟨key, hwrote⟩ := exists_wrote_of_writeIfChanged hfirst
    exact .cons hwrote (ih hrest)

/-- Writing all files of a run deletes some entries first and then writes the files. -/
theorem exists_wroteAll_of_writeAll {s : OutputSet} {report : WriteReport}
    (h : Runs (writeAll base s) t report t') : ∃ t₁, Tree.WroteAll base t₁ s.files t' := by
  obtain ⟨t₁, t₂, -, hrun⟩ := runs_bind.mp h
  obtain ⟨_, t₃, -, hrun⟩ := runs_bind.mp hrun
  obtain ⟨paths, t₄, hwrite, hpure⟩ := runs_bind.mp hrun
  obtain ⟨-, rfl⟩ := runs_pure.mp hpure
  exact ⟨t₃, wroteAll_of_writeEach hwrite⟩

end Disk

end Declgen.Files
