import Declgen.Proofs.Files.Deleting
import Mathlib.Logic.Function.Basic

/-!
# Files by key

A run can be described by what it does to the files of a tree, key by key: deletions take files
away, and every write puts one text where its path leads.
-/

namespace Declgen.Files

open Disk

namespace Tree

/-- The content of the file with a key. -/
def file? (t : Tree) (key : Key) : Option Content :=
  match t.entry? key with
  | some (.file content) => some content
  | _ => none

variable {t t' : Tree} {base p : Path} {key : Key} {names : List String} {content : Content}

/-! ### Operations -/

/-- A key has a content if there is a file under it. -/
theorem file?_eq_some :
    t.file? key = some content ↔ t.entry? key = some (.file content) := by
  unfold file?
  split <;> simp_all

/-- Writing a file changes the content under its key and no other. -/
theorem file?_put_file (hkey : key ≠ []) (content : Content) :
    (t.put key (.file content)).file? = Function.update t.file? key (some content) := by
  funext other
  by_cases heq : other = key
  · subst heq
    rw [Function.update_self, file?_eq_some, entry?_put t hkey, if_pos rfl]
  · rw [Function.update_of_ne heq, file?, file?, entry?_put t hkey, if_neg heq]

/-- Making a folder changes no content. -/
theorem file?_put_folder (hkey : t.entry? key = none) : (t.put key .folder).file? = t.file? := by
  have hne : key ≠ [] := by
    rintro rfl
    cases hkey
  funext other
  rw [file?, file?, entry?_put t hne]
  by_cases heq : other = key
  · rw [if_pos heq, heq, hkey]
  · rw [if_neg heq]

/-- A larger tree has the same files if it has nothing new but folders. -/
theorem file?_of_withFolder? (h : t.withFolder? p = some t') : t'.file? = t.file? := by
  rcases exists_of_withFolder? h with rfl | ⟨key, slash, hlocate, rfl⟩
  · rfl
  · exact file?_put_folder (entry?_of_free hlocate)

/-- A file that is written holds its content, and no other file changes. -/
theorem file?_of_withFile? (h : t.withFile? p content = some t')
    (hlocate : t'.locate true p = .taken key) :
    t'.file? = Function.update t.file? key (some content) := by
  obtain ⟨place, hwrote, rfl⟩ := exists_wrote_of_withFile? h
  obtain rfl : place = key := Site.taken.inj (hwrote.locate.symm.trans hlocate)
  refine file?_put_file ?_ content
  rintro rfl
  cases hwrote.entry

/-- The second tree has the home of the first and no links but those of the first. -/
structure OldLinks (t t' : Tree) : Prop where
  /-- The home is the same. -/
  home : t'.home = t.home
  /-- No link is new. -/
  link : ∀ key target, t'.entry? key = some (.link target) → t.entry? key = some (.link target)

/-- What is put into a tree brings no link unless it is one. -/
theorem OldLinks.put {t₀ : Tree} (h : OldLinks t₀ t) (hkey : key ≠ []) {e : Entry}
    (he : ∀ target, e ≠ .link target) : OldLinks t₀ (t.put key e) := by
  refine ⟨h.home, fun other target hentry => ?_⟩
  rw [entry?_put t hkey] at hentry
  split at hentry
  · exact absurd (Option.some.inj hentry) (he target)
  · exact h.link other target hentry

/-- A tree that lies within one without new links has none either. -/
theorem OldLinks.of_extends {t₀ : Tree} (h : OldLinks t₀ t) (h' : Extends t' t) :
    OldLinks t₀ t' :=
  ⟨h'.home.symm.trans h.home, fun key target hentry => h.link key target (h'.entry key _ hentry)⟩

/-- No operation makes a link or moves the home. -/
theorem closed_oldLinks (t₀ : Tree) : Closed (OldLinks t₀) where
  withFolder t t' p h hmake := by
    rcases exists_of_withFolder? hmake with rfl | ⟨key, slash, hlocate, rfl⟩
    · exact h
    · obtain ⟨here, name, rfl, -⟩ := exists_of_free hlocate
      exact h.put (by simp) fun _ => nofun
  withFile t t' p content h hwrite := by
    obtain ⟨key, hwrote, rfl⟩ := exists_wrote_of_withFile? hwrite
    refine h.put ?_ fun _ => nofun
    rintro rfl
    cases hwrote.entry
  withoutFile t t' p h hdelete := h.of_extends (extends_of_withoutFile? hdelete)
  withoutFolder t t' p h hremove := h.of_extends (extends_of_withoutFolder? hremove)

end Tree

/-! ### Runs -/

/-- The contents by key after the texts of files have been put in their places, in order. -/
def overwrite (place : OutputFile → Key) (files : List OutputFile) (held : Key → Option Content) :
    Key → Option Content :=
  files.foldl (fun held file => Function.update held (place file) (some (.text file.content))) held

section Overwriting

variable {place : OutputFile → Key} {files : List OutputFile} {held held' : Key → Option Content}
  {key : Key}

/-- The first of the files is put in its place, and then the others. -/
private theorem overwrite_cons (file : OutputFile) :
    overwrite place (file :: files) held =
      overwrite place files (Function.update held (place file) (some (.text file.content))) := rfl

/-- Where no file is put, nothing changes. -/
theorem overwrite_of_not_mem (h : key ∉ files.map place) :
    overwrite place files held key = held key := by
  induction files generalizing held with
  | nil => rfl
  | cons file files ih =>
    rw [List.map_cons, List.mem_cons, not_or] at h
    rw [overwrite_cons, ih h.2, Function.update_of_ne h.1]

/-- It does not matter what is overwritten. -/
theorem overwrite_congr (h : ∀ key, key ∉ files.map place → held key = held' key) :
    overwrite place files held = overwrite place files held' := by
  induction files generalizing held held' with
  | nil => exact funext fun key => h key (by simp)
  | cons file files ih =>
    rw [overwrite_cons, overwrite_cons]
    refine ih fun key hkey => ?_
    by_cases heq : key = place file
    · rw [heq, Function.update_self, Function.update_self]
    · rw [Function.update_of_ne heq, Function.update_of_ne heq]
      exact h key (by rw [List.map_cons, List.mem_cons]; exact not_or.mpr ⟨heq, hkey⟩)

/-- If no two files have the same place, each is in its place. -/
theorem overwrite_of_mem (h : (files.map place).Nodup) {file : OutputFile} (hfile : file ∈ files) :
    overwrite place files held (place file) = some (.text file.content) := by
  induction files generalizing held with
  | nil => cases hfile
  | cons first files ih =>
    rw [List.map_cons, List.nodup_cons] at h
    rw [overwrite_cons]
    rcases List.mem_cons.mp hfile with rfl | hfile
    · rw [overwrite_of_not_mem h.1, Function.update_self]
    · exact ih h.2 hfile

end Overwriting

namespace Disk

open Files.Tree

variable {t t' : Tree} {base p : Path} {key : Key} {content : Content} {paths : List Path}
  {files : List OutputFile}

/-- Making a folder with those above it changes no content. -/
theorem file?_of_makeFolder (h : Runs (makeFolder p) t () t') : t'.file? = t.file? := by
  unfold makeFolder at h
  split at h
  · obtain ⟨-, rfl⟩ := runs_pure.mp h
    rfl
  · split at h
    · exact absurd h runs_throw
    · exact Runs.forM (r := fun t t' => t'.file? = t.file?) (fun _ => rfl)
        (fun _ _ _ heq heq' => heq'.trans heq)
        (fun folder t t' hstep => file?_of_withFolder? (runs_change.mp hstep)) h

/-- Writing a file changes the content of the place to which its path leads, and no other. -/
theorem file?_of_write (h : Runs (write p content) t () t')
    (hlocate : t'.locate true p = .taken key) :
    t'.file? = Function.update t.file? key (some content) := by
  unfold write at h
  dsimp only at h
  split at h
  · obtain ⟨_, t₁, hfolder, hchange⟩ := runs_bind.mp h
    rw [← file?_of_makeFolder hfolder]
    exact file?_of_withFile? (runs_change.mp hchange) hlocate
  · exact file?_of_withFile? (runs_change.mp h) hlocate

/-- A file that is up to date holds its text as if it had been written. -/
theorem file?_of_writeIfChanged {file : OutputFile} {changed : Bool}
    (h : Runs (writeIfChanged base file) t changed t')
    (hlocate : t'.locate true (file.fullPath base) = .taken key) :
    t'.file? = Function.update t.file? key (some (.text file.content)) := by
  rcases runs_writeIfChanged.mp h with ⟨-, htext, rfl⟩ | ⟨-, -, hwrite⟩
  · obtain ⟨place, hplace, hentry⟩ := exists_of_text? htext
    obtain rfl : place = key := Site.taken.inj (hplace.symm.trans hlocate)
    rw [← file?_eq_some.mpr hentry, Function.update_eq_self]
  · exact file?_of_write hwrite hlocate

/-- Files that are written one after the other are put where their paths lead in the end. -/
theorem file?_of_writeEach {place : OutputFile → Key} {paths : List String × List String}
    (h : Runs (writeEach base files) t paths t')
    (hplace : ∀ file ∈ files, t'.locate true (file.fullPath base) = .taken (place file)) :
    t'.file? = overwrite place files t.file? := by
  induction files generalizing t paths with
  | nil =>
    obtain ⟨-, rfl⟩ := runs_writeEach_nil.mp h
    rfl
  | cons file files ih =>
    obtain ⟨changed, t₁, rest, hfirst, hrest, -⟩ := runs_writeEach_cons.mp h
    obtain ⟨key, hwrote⟩ := exists_wrote_of_writeIfChanged hfirst
    have hkey : key = place file := by
      have hlater := (wroteAll_of_writeEach hrest).keeps.locate hwrote.locate
      exact Site.taken.inj (hlater.symm.trans (hplace file List.mem_cons_self))
    rw [ih hrest fun other hother => hplace other (List.mem_cons_of_mem _ hother),
      file?_of_writeIfChanged hfirst hwrote.locate, hkey]
    rfl

/-- Deletions take away the files to which their paths lead, and no others. -/
theorem file?_of_deletions (h : Runs (paths.forM (deleteGenerated base)) t () t') (key : Key) :
    t'.file? key = if ∃ p ∈ paths, t.locate false p = .taken key then none else t.file? key := by
  have hthinned := thinned_deletions (G := fun key => ∃ p ∈ paths, t.locate false p = .taken key) t
    base fun p hp key hlocate => ⟨p, hp, hlocate⟩
  rw [h.leaves_eq] at hthinned
  split
  · rename_i hgone
    obtain ⟨p, hp, hlocate⟩ := hgone
    obtain ⟨place, hplace, hnone⟩ := gone_of_deletions h hp
    obtain rfl : place = key := Site.taken.inj (hplace.symm.trans hlocate)
    rw [file?, hnone]
  · rename_i hstays
    refine Option.ext fun content => ?_
    rw [file?_eq_some, file?_eq_some]
    exact ⟨hthinned.smaller.entry key _, fun hentry => hthinned.kept key _ hentry nofun hstays⟩

end Disk

/-! ### Generated files -/

/-- Whether a file with this key and content is a generated one. -/
def isMarked (key : Key) : Option Content → Bool
  | some (.text content) =>
    (key.getLast?.bind fun name => Path.extension? ⟨name⟩) = some extension && isGenerated content
  | _ => false

/-- What is marked is a text. -/
theorem exists_of_isMarked {key : Key} {held : Option Content} (h : isMarked key held = true) :
    ∃ content, held = some (.text content) := by
  unfold isMarked at h
  split at h
  · exact ⟨_, rfl⟩
  · cases h

namespace Path

variable {p q : Path} {name : String} {names : List String}

/-- The extension depends on the file name only. -/
theorem extension?_congr (h : p.fileName? = q.fileName?) : p.extension? = q.extension? := by
  rw [extension?, extension?, h]

/-- The path that consists of one name has this file name. -/
theorem fileName?_of_isName (h : IsName name) : fileName? ⟨name⟩ = some name := by
  obtain ⟨hidle, hup, hslash⟩ := h
  have hsegments : segments ⟨name⟩ = [name] := by
    have hsplit : Text.splitAt '/' ("/".intercalate [name]) = [name] :=
      Text.splitAt_intercalate (by simp) fun part hpart => (List.mem_singleton.mp hpart) ▸ hslash
    rwa [String.intercalate_singleton] at hsplit
  have hrelative : isAbsolute ⟨name⟩ = false := by
    rw [isAbsolute, decide_eq_false_iff_not]
    exact fun hhead => hslash (List.mem_of_head? hhead)
  have hdot : name ≠ "." := by
    rintro rfl
    exact absurd hidle (by decide)
  have hinner : inner [name] = [.name name] := by
    rw [inner_cons_of_not_idle (by simp [hidle]), component, if_neg hup]
    rfl
  simp [fileName?, components, hsegments, hrelative, hdot, hinner]

/-- The name at the end of a path below a base is the last of the names. -/
theorem fileName?_below (base : Path) {names : List String}
    (hnames : ∀ name ∈ names, IsName name) (hlast : names.getLast? = some name) :
    (base.below names).fileName? = some name := by
  have hne : names ≠ [] := by
    rintro rfl
    cases hlast
  obtain ⟨above, rfl⟩ := List.getLast?_eq_some_iff.mp hlast
  rw [← fullPath_ofNames hne hnames, fileName?, (plain_ofNames hne hnames).components_fullPath,
    names_ofNames hne hnames]
  simp

/-- A file below a base is told to be a generated one by the last of its names. -/
theorem isGeneratedFile_below (base : Path) (hnames : ∀ name ∈ names, IsName name)
    (hne : names ≠ []) (content : Content) :
    Tree.isGeneratedFile (base.below names) (.file content) = isMarked names (some content) := by
  have hlast := List.getLast?_eq_some_getLast hne
  have hname := fileName?_of_isName (hnames _ (List.getLast_mem hne))
  cases content with
  | bytes bs => rfl
  | text content =>
    rw [Tree.isGeneratedFile, isMarked, hlast, Option.bind_some,
      extension?_congr ((fileName?_below base hnames hlast).trans hname.symm)]

end Path

end Declgen.Files
