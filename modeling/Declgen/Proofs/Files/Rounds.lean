import Declgen.Proofs.Files.Rewriting
import Declgen.Proofs.Files.SameLinks
import Mathlib.Data.List.Nodup

/-!
# Runs over one output folder

Runs that write or clean follow one another over one base. After each of them that succeeds, the
generated files below the base are those of this run, and the same run once more would do nothing.
-/

namespace Declgen.Files

open Disk Files.Tree

/-! ### Files that are recognised -/

/-- The files of a run are recognised as generated ones and stay below the base. -/
structure OutputSet.Regular (base : Path) (s : OutputSet) : Prop where
  /-- Every name has a stem and the extension. -/
  named : ∀ file ∈ s.files, ∃ stem, stem ≠ "" ∧
    (Text.splitAt '/' file.path).getLast? = some (stem ++ ".ts")
  /-- No segment goes anywhere else. -/
  stays : ∀ file ∈ s.files, ∀ segment ∈ Text.splitAt '/' file.path, segment ≠ "." ∧ segment ≠ ".."
  /-- The full paths differ. -/
  apart : s.files.Pairwise fun file file' => file.fullPath base ≠ file'.fullPath base
  /-- Every text has the marker line. -/
  marked : ∀ file ∈ s.files, isGenerated file.content = true

/-- A name with a stem has the extension of generated files. -/
theorem Path.extension?_of_stem {stem : String} (hstem : stem ≠ "")
    (hname : IsName (stem ++ ".ts")) : Path.extension? ⟨stem ++ ".ts"⟩ = some extension := by
  have hreverse : (stem ++ ".ts").toList.reverse = 's' :: 't' :: '.' :: stem.toList.reverse := by
    rw [String.toList_append, List.reverse_append]
    rfl
  have hspan : ('s' :: 't' :: '.' :: stem.toList.reverse).span (· ≠ '.') =
      (['s', 't'], '.' :: stem.toList.reverse) := rfl
  have hlength : ¬('.' :: stem.toList.reverse).length ≤ 1 := by
    have := List.length_pos_iff.mpr (show stem.toList ≠ [] by simpa using hstem)
    rw [List.length_cons, List.length_reverse]
    omega
  rw [extension?, fileName?_of_isName hname]
  dsimp only
  rw [hreverse, hspan, if_neg hlength]
  rfl

namespace OutputSet.Regular

variable {base : Path} {s : OutputSet} {file : OutputFile}

/-- A file of a regular set is plain. -/
theorem plain (h : s.Regular base) (hfile : file ∈ s.files) : file.Plain := by
  refine ⟨?_, fun name hname => h.stays file hfile name (List.mem_filter.mp hname).1⟩
  obtain ⟨stem, hstem, hlast⟩ := h.named file hfile
  rw [hlast]
  simp

/-- A planned file is a generated one. -/
theorem isMarked_names (h : s.Regular base) (hfile : file ∈ s.files) :
    isMarked file.names (some (.text file.content)) = true := by
  obtain ⟨stem, hstem, hlast⟩ := h.named file hfile
  obtain ⟨above, habove⟩ := List.getLast?_eq_some_iff.mp hlast
  have hne : stem ++ ".ts" ≠ "" := by simp [hstem]
  have hnames : file.names = (above.filter fun segment => segment ≠ "") ++ [stem ++ ".ts"] := by
    rw [OutputFile.names, habove, List.filter_append]
    simp [hstem]
  have hname := (h.plain hfile).isName (show stem ++ ".ts" ∈ file.names by rw [hnames]; simp)
  rw [isMarked, hnames, List.getLast?_concat, Option.bind_some, Path.extension?_of_stem hstem hname,
    h.marked file hfile]
  rfl

/-- Planned files have different names. -/
theorem names_apart (h : s.Regular base) : (s.files.map OutputFile.names).Nodup := by
  rw [List.Nodup, List.pairwise_map]
  refine h.apart.imp_of_mem fun {file file'} hfile hfile' hne heq => hne ?_
  rw [(h.plain hfile).fullPath_eq, (h.plain hfile').fullPath_eq, heq]

end OutputSet.Regular

/-! ### Generated files below a base -/

/-- A file below a base, with these names from there and this text, is a generated one. -/
def Tree.HoldsGenerated (t : Tree) (base : Path) (names : List String) (content : String) : Prop :=
  ∃ root, t.locate true base = .taken root ∧ names ≠ [] ∧
    t.file? (root ++ names) = some (.text content) ∧ isMarked names (some (.text content)) = true

section Ready

variable {t t' t₀ : Tree} {base : Path} {root key : Key} {names : List String} {paths : List Path}

/-- A generated file below a base is listed. -/
theorem Tree.WellFormed.below_mem_generated (ht : t.WellFormed)
    (hbase : t.locate true base = .taken root) (hne : names ≠ [])
    (hmarked : isMarked names (t.file? (root ++ names)) = true) :
    base.below names ∈ t.generated base := by
  obtain ⟨content, hfile⟩ := exists_of_isMarked hmarked
  have hentry := file?_eq_some.mp hfile
  have hnames := ht.isName_below hentry
  refine ht.mem_generated.mpr ⟨root, names, _, hbase, rfl, hentry, ?_, fun heq => absurd heq hne⟩
  rwa [Path.isGeneratedFile_below base hnames hne, ← hfile]

/-- A base has been led to a place. Wherever it leads from now on, as long as the links stay, it
leads there: no link stands below the place, and if the base leads nowhere at the moment, there is
no generated file below the place either. -/
structure Settled (base : Path) (root : Key) (t : Tree) : Prop where
  /-- The base leads to the place in some tree with the same links. -/
  led : ∃ t', SameLinks t t' ∧ t'.locate true base = .taken root
  /-- There is no link below the place. -/
  clear : ∀ names, names ≠ [] → ∀ target, t.entry? (root ++ names) ≠ some (.link target)
  /-- If the base leads nowhere, there is no generated file below the place. -/
  bare : (∀ folder, t.locate true base ≠ .taken folder) →
    ∀ names, names ≠ [] → isMarked names (t.file? (root ++ names)) = false

/-- Wherever a settled base leads, it leads to its place. -/
theorem Settled.eq_of_locate (h : Settled base root t) (hlinks : SameLinks t t')
    (hlocate : t'.locate true base = .taken key) : key = root := by
  obtain ⟨t₁, hlinks₁, hlocate₁⟩ := h.led
  exact (hlinks₁.symm.trans hlinks).eq_of_locate hlocate₁ hlocate

/-- What holds before and after each run: the base is settled, or it leads nowhere yet but
onward. -/
structure Ready (base : Path) (t : Tree) : Prop where
  /-- The tree is well formed. -/
  wellFormed : t.WellFormed
  /-- The base is settled, or its folder has to be made. -/
  base : (∃ root, Settled base root t) ∨
    t.Onward base ∧ ∀ folder, t.locate true base ≠ .taken folder

/-- Before the first run, no link may stand below the base, and the base must lead onward. -/
theorem Tree.WellFormed.ready (ht : t.WellFormed) (hlinks : t.Linkless base)
    (honward : t.Onward base) : Ready base t := by
  refine ⟨ht, ?_⟩
  by_cases hleads : ∃ root, t.locate true base = .taken root
  · obtain ⟨root, hroot⟩ := hleads
    refine .inl ⟨root, ⟨t, .refl t, hroot⟩, fun names hne target => ?_,
      fun hnowhere => absurd hroot (hnowhere root)⟩
    rw [locate_eq (usable_of_taken hroot)] at hroot
    exact hlinks.entry?_ne hroot target hne
  · exact .inr ⟨honward, fun root hroot => hleads ⟨root, hroot⟩⟩

/-- A generated file that is left after deletions is listed, but not among the deleted ones. -/
theorem Settled.left_of_deletions (h : Settled base root t) (ht : t.WellFormed)
    (hdelete : Runs (paths.forM (deleteGenerated base)) t () t₀) (hne : names ≠ [])
    (hmarked : isMarked names (t₀.file? (root ++ names)) = true) :
    base.below names ∈ t.generated base ∧ base.below names ∉ paths := by
  have hfile := file?_of_deletions hdelete (root ++ names)
  split at hfile
  · rw [hfile] at hmarked
    cases hmarked
  · rename_i hstays
    rw [hfile] at hmarked
    obtain ⟨key, hkey⟩ : ∃ key, t.locate true base = .taken key := by
      by_contra hnowhere
      have hunmarked := h.bare (fun folder hfolder => hnowhere ⟨folder, hfolder⟩) names hne
      rw [hmarked] at hunmarked
      cases hunmarked
    rw [h.eq_of_locate (.refl t) hkey] at hkey
    refine ⟨ht.below_mem_generated hkey hne hmarked, fun hmem => hstays ⟨_, hmem, ?_⟩⟩
    obtain ⟨content, hcontent⟩ := exists_of_isMarked hmarked
    obtain ⟨place, hplace, -⟩ := gone_of_deletions hdelete hmem
    exact ht.locate_below hkey hne (file?_eq_some.mp hcontent) (fun _ => nofun)
      (usable_of_taken hplace)

/-! ### One run -/

/-- A base is usable if there are usable paths below it. -/
theorem OutputFile.Plain.isUsable_base {file : OutputFile} (h : file.Plain) (hbase : base.text ≠ "")
    (husable : (file.fullPath base).isUsable = true) : base.isUsable = true := by
  obtain ⟨rest, hrest⟩ := Path.exists_opening_eq base
  have htext : (file.fullPath base).text = base.text ++ (rest ++ "/".intercalate file.names) := by
    rw [h.fullPath_eq, hrest, String.append_assoc]
  exact Path.isUsable_of_append htext hbase husable

end Ready

/-- A run with recognised files has started from a tree in which it may start: it has deleted what
is stale and then written its files. -/
structure RegularRun (base : Path) (s : OutputSet) (t t₀ t' : Tree) : Prop where
  /-- The base is named. -/
  named : base.text ≠ ""
  /-- The files are recognised. -/
  regular : s.Regular base
  /-- The run may start. -/
  start : Ready base t
  /-- The deletions have succeeded. -/
  deleted : Runs ((stale t base s).forM (deleteGenerated base)) t () t₀
  /-- The files have been written. -/
  wrote : ∃ paths, Runs (writeEach base s.files) t₀ paths t'

namespace RegularRun

variable {t t' t₀ : Tree} {base : Path} {s : OutputSet} {root : Key} {names : List String}
  {content : String} {file : OutputFile}

/-- A run changes no links. -/
theorem sameLinks (h : RegularRun base s t t₀ t') : SameLinks t t' := by
  obtain ⟨paths, hwrite⟩ := h.wrote
  exact (sameLinks_of_deletions h.start.wellFormed (fun p hp => (List.mem_filter.mp hp).1)
    h.deleted).trans (sameLinks_of_writeEach hwrite)

/-- Nothing is deleted if the base leads nowhere. -/
theorem eq_of_nowhere (h : RegularRun base s t t₀ t')
    (hnowhere : ∀ folder, t.locate true base ≠ .taken folder) : t₀ = t := by
  have hstale : stale t base s = [] := by
    refine List.eq_nil_iff_forall_not_mem.mpr fun p hp => ?_
    obtain ⟨folder, -, -, hfolder, -⟩ :=
      h.start.wellFormed.mem_generated.mp (List.mem_filter.mp hp).1
    exact hnowhere folder hfolder
  have hdeleted := h.deleted
  rw [hstale] at hdeleted
  exact (runs_pure.mp hdeleted).2

/-- The base is settled before the run at the place to which it leads afterwards. -/
theorem settled (h : RegularRun base s t t₀ t') (hroot : t'.locate true base = .taken root) :
    Settled base root t := by
  rcases h.start.base with ⟨place, hplace⟩ | ⟨honward, hnowhere⟩
  · rwa [hplace.eq_of_locate h.sameLinks hroot]
  · obtain ⟨paths, hwrite⟩ := h.wrote
    rw [h.eq_of_nowhere hnowhere] at hwrite
    have hnone := entry?_eq_none_of_missing h.start.wellFormed honward hnowhere
      (fun _ => h.regular.plain) hwrite hroot
    refine ⟨⟨t', h.sameLinks, hroot⟩, fun names _ target => by simp [hnone], fun _ names _ => ?_⟩
    rw [file?, hnone]
    rfl

/-- The tree after the deletions is well formed. -/
theorem wellFormed_deleted (h : RegularRun base s t t₀ t') : t₀.WellFormed :=
  (closed_wellFormed.deletions base _).of_runs h.deleted h.start.wellFormed

/-- The tree after the run is well formed. -/
theorem wellFormed (h : RegularRun base s t t₀ t') : t'.WellFormed := by
  obtain ⟨paths, hwrite⟩ := h.wrote
  exact (closed_wellFormed.writeEach base s.files).of_runs hwrite h.wellFormed_deleted

/-- If there are files to be written, the base leads to a place, and the files are where their names
lead from there. -/
theorem exists_root (h : RegularRun base s t t₀ t') (hfile : file ∈ s.files) :
    ∃ root, t'.locate true base = .taken root ∧
      t'.locate true (file.fullPath base) = .taken (root ++ file.names) := by
  obtain ⟨paths, hwrite⟩ := h.wrote
  obtain ⟨key, hkey⟩ := (wroteAll_of_writeEach hwrite).exists_locate hfile
  have hplain := h.regular.plain hfile
  have husable := hplain.isUsable_base h.named (usable_of_taken hkey)
  have hclear : t'.Linkless base := by
    intro folder hfolder below target hmem
    obtain ⟨hbelow, hlink⟩ := h.wellFormed.mem_inside.mp hmem
    exact (h.settled ((locate_eq husable).trans hfolder)).clear below hbelow target
      ((h.sameLinks.link _ _).mp hlink)
  obtain ⟨root, hroot, rfl⟩ := hplain.locate_eq hclear hkey
  exact ⟨root, (locate_eq husable).trans hroot, hkey⟩

/-- A file of the run is where its names lead from the place of the base. -/
theorem locate_fullPath (h : RegularRun base s t t₀ t') (hroot : t'.locate true base = .taken root)
    (hfile : file ∈ s.files) :
    t'.locate true (file.fullPath base) = .taken (root ++ file.names) := by
  obtain ⟨root', hroot', hplace⟩ := h.exists_root hfile
  rwa [← Site.taken.inj (hroot'.symm.trans hroot)]

/-- A generated file that is left after the deletions is planned. -/
theorem planned_of_left (h : RegularRun base s t t₀ t') (hsettled : Settled base root t)
    (hne : names ≠ []) (hmarked : isMarked names (t₀.file? (root ++ names)) = true) :
    ∃ file ∈ s.files, file.names = names := by
  obtain ⟨hlisted, hkept⟩ := hsettled.left_of_deletions h.start.wellFormed h.deleted hne hmarked
  obtain ⟨content, hcontent⟩ := exists_of_isMarked hmarked
  have hnames := h.wellFormed_deleted.isName_below (file?_eq_some.mp hcontent)
  by_contra hfresh
  exact hkept ((mem_stale_below (fun _ => h.regular.plain) hnames).mpr
    ⟨hlisted, fun file hfile heq => hfresh ⟨file, hfile, heq⟩⟩)

/-- The files of the run have been put over those that the deletions have left. -/
theorem file?_eq (h : RegularRun base s t t₀ t') (hroot : t'.locate true base = .taken root) :
    t'.file? = overwrite (fun file => root ++ file.names) s.files t₀.file? := by
  obtain ⟨paths, hwrite⟩ := h.wrote
  exact file?_of_writeEach hwrite fun file hfile => h.locate_fullPath hroot hfile

/-- The files of the run hold their texts. -/
theorem file?_of_planned (h : RegularRun base s t t₀ t') (hroot : t'.locate true base = .taken root)
    (hfile : file ∈ s.files) : t'.file? (root ++ file.names) = some (.text file.content) := by
  have hplaces : (s.files.map fun file => root ++ file.names).Nodup := by
    have hnames := List.Nodup.map (List.append_right_injective root) h.regular.names_apart
    rwa [List.map_map] at hnames
  rw [h.file?_eq hroot]
  exact overwrite_of_mem hplaces hfile

/-- Every file of the run can be read back. -/
theorem text?_eq (h : RegularRun base s t t₀ t') (hfile : file ∈ s.files) :
    t'.text? (file.fullPath base) = some file.content := by
  obtain ⟨root, hroot, hplace⟩ := h.exists_root hfile
  exact Tree.text?_eq hplace (file?_eq_some.mp (h.file?_of_planned hroot hfile))

/-- After the run, the generated files below the base are the files of the run. -/
theorem holdsGenerated_iff (h : RegularRun base s t t₀ t') : t'.HoldsGenerated base names content ↔
    ∃ file ∈ s.files, file.names = names ∧ file.content = content := by
  constructor
  · rintro ⟨root, hroot, hne, hfile, hmarked⟩
    suffices hplanned : ∃ file ∈ s.files, file.names = names by
      obtain ⟨file, hmem, rfl⟩ := hplanned
      have htext := h.file?_of_planned hroot hmem
      rw [hfile] at htext
      cases htext
      exact ⟨file, hmem, rfl, rfl⟩
    by_cases hmem : root ++ names ∈ s.files.map fun file => root ++ file.names
    · obtain ⟨file, hmem, heq⟩ := List.mem_map.mp hmem
      exact ⟨file, hmem, List.append_cancel_left heq⟩
    · rw [← hfile, h.file?_eq hroot, overwrite_of_not_mem hmem] at hmarked
      exact h.planned_of_left (h.settled hroot) hne hmarked
  · rintro ⟨file, hmem, rfl, rfl⟩
    obtain ⟨root, hroot, -⟩ := h.exists_root hmem
    exact ⟨root, hroot, (h.regular.plain hmem).names_ne_nil, h.file?_of_planned hroot hmem,
      h.regular.isMarked_names hmem⟩

/-- Without files nothing happens after the deletions. -/
theorem eq_of_files_eq_nil (h : RegularRun base s t t₀ t') (hnone : s.files = []) : t' = t₀ := by
  obtain ⟨paths, hwrite⟩ := h.wrote
  rw [hnone] at hwrite
  exact (runs_writeEach_nil.mp hwrite).2

/-- There are no files to be written if the base leads nowhere after the run. -/
theorem files_eq_nil (h : RegularRun base s t t₀ t')
    (hnowhere : ∀ folder, t'.locate true base ≠ .taken folder) : s.files = [] := by
  refine List.eq_nil_iff_forall_not_mem.mpr fun file hfile => ?_
  obtain ⟨folder, hfolder, -⟩ := h.exists_root hfile
  exact hnowhere folder hfolder

/-- A base that is settled before the run is so afterwards. -/
theorem settled_after (h : RegularRun base s t t₀ t') (hsettled : Settled base root t) :
    Settled base root t' := by
  obtain ⟨t₁, hlinks, hlocate⟩ := hsettled.led
  refine ⟨⟨t₁, h.sameLinks.symm.trans hlinks, hlocate⟩, fun names hne target hlink => ?_,
    fun hnowhere names hne => ?_⟩
  · exact hsettled.clear names hne target ((h.sameLinks.link _ _).mp hlink)
  · have hnone := h.files_eq_nil hnowhere
    by_contra hmarked
    rw [Bool.not_eq_false, h.eq_of_files_eq_nil hnone] at hmarked
    obtain ⟨file, hfile, -⟩ := h.planned_of_left hsettled hne hmarked
    rw [hnone] at hfile
    cases hfile

/-- The next run may start from the tree that this run leaves. -/
theorem ready (h : RegularRun base s t t₀ t') : Ready base t' := by
  refine ⟨h.wellFormed, ?_⟩
  by_cases hleads : ∃ root, t'.locate true base = .taken root
  · obtain ⟨root, hroot⟩ := hleads
    exact .inl ⟨root, h.settled_after (h.settled hroot)⟩
  · have hnowhere (folder : Key) (hfolder : t'.locate true base = .taken folder) : False :=
      hleads ⟨folder, hfolder⟩
    rcases h.start.base with ⟨root, hsettled⟩ | ⟨honward, hbefore⟩
    · exact .inl ⟨root, h.settled_after hsettled⟩
    · -- The run has neither deleted nor written anything.
      have hsame : t' = t :=
        (h.eq_of_files_eq_nil (h.files_eq_nil hnowhere)).trans (h.eq_of_nowhere hbefore)
      exact .inr ⟨hsame ▸ honward, hnowhere⟩

/-- After the run, the base itself is no generated file. -/
theorem base_not_generated (h : RegularRun base s t t₀ t')
    (hroot : t'.locate true base = .taken root) (hbase : t'.locate false base = .taken root)
    {e : Entry} (hentry : t'.entry? root = some e) : isGeneratedFile base e = false := by
  by_contra hgenerated
  rw [Bool.not_eq_false] at hgenerated
  obtain ⟨content, rfl, -, -⟩ := exists_of_isGeneratedFile hgenerated
  cases hfiles : s.files with
  | cons file files =>
    -- A file has been written below the base, so it is a folder.
    have hmem : file ∈ s.files := hfiles ▸ List.mem_cons_self
    have hfile := file?_eq_some.mp (h.file?_of_planned hroot hmem)
    have hfolder := h.wellFormed.folder_of_append (h.regular.plain hmem).names_ne_nil hfile
    cases hentry.symm.trans hfolder
  | nil =>
    -- Nothing has been written, so the base was a generated file before and has been deleted.
    rw [h.eq_of_files_eq_nil hfiles] at hroot hbase hentry
    have hsmaller := extends_of_deletions h.deleted
    have hlisted : base ∈ t.generated base := by
      refine h.start.wellFormed.mem_generated.mpr ⟨root, [], _, hsmaller.locate hroot, rfl, ?_,
        hgenerated, fun _ => hsmaller.locate hbase⟩
      rw [List.append_nil]
      exact hsmaller.entry _ _ hentry
    have hstale : base ∈ stale t base s := List.mem_filter.mpr ⟨hlisted, by rw [hfiles]; rfl⟩
    obtain ⟨key, hkey, hgone⟩ := gone_of_deletions h.deleted hstale
    cases hkey.symm.trans (hsmaller.locate hbase)
    cases hgone.symm.trans hentry

/-- After the run, nothing is stale. -/
theorem stale_eq_nil (h : RegularRun base s t t₀ t') : stale t' base s = [] := by
  refine List.eq_nil_iff_forall_not_mem.mpr fun p hp => ?_
  obtain ⟨root, names, e, hroot, rfl, hentry, hgenerated, hbase⟩ :=
    h.wellFormed.mem_generated.mp (List.mem_filter.mp hp).1
  by_cases hne : names = []
  · subst hne
    rw [List.append_nil] at hentry
    have hnot := h.base_not_generated hroot (hbase rfl) hentry
    cases hgenerated.symm.trans hnot
  · obtain ⟨content, rfl, -, -⟩ := exists_of_isGeneratedFile hgenerated
    have hnames := h.wellFormed.isName_below hentry
    rw [Path.isGeneratedFile_below base hnames hne] at hgenerated
    obtain ⟨file, hfile, heq, -⟩ := h.holdsGenerated_iff.mp
      ⟨root, hroot, hne, file?_eq_some.mpr hentry, hgenerated⟩
    exact ((mem_stale_below (fun _ => h.regular.plain) hnames).mp hp).2 file hfile heq

/-- The same run once more deletes nothing and writes nothing. -/
theorem again (h : RegularRun base s t t₀ t') :
    Runs (writeAll base s) t' ⟨[], s.files.map (·.path), []⟩ t' := by
  have hunchanged (files : List OutputFile) (hfiles : ∀ file ∈ files, file ∈ s.files) :
      Runs (writeEach base files) t' ([], files.map (·.path)) t' := by
    induction files with
    | nil => exact runs_writeEach_nil.mpr ⟨rfl, rfl⟩
    | cons file files ih =>
      refine runs_writeEach_cons.mpr ⟨false, t', _, runs_writeIfChanged.mpr (.inl ⟨rfl, ?_, rfl⟩),
        ih fun other hother => hfiles other (List.mem_cons_of_mem _ hother), rfl⟩
      exact h.text?_eq (hfiles file List.mem_cons_self)
  refine runs_writeAll.mpr ⟨t', ?_, hunchanged s.files fun _ => id, h.stale_eq_nil.symm⟩
  rw [h.stale_eq_nil]
  exact runs_pure.mpr ⟨rfl, rfl⟩

end RegularRun

/-! ### Several runs -/

/-- A run over a base. -/
inductive Round where
  /-- Writing the files of a set. -/
  | write (s : OutputSet)
  /-- Cleaning. -/
  | clean

namespace Round

/-- The files of a run. Cleaning is a run without files. -/
def set : Round → OutputSet
  | write s => s
  | clean => .empty

/-- A run succeeds and turns one tree into another. -/
def Runs (base : Path) (t : Tree) : Round → Tree → Prop
  | write s, t' => ∃ report, Disk.Runs (writeAll base s) t report t'
  | clean, t' => ∃ files, Disk.Runs (Disk.clean base false) t files t'

variable {base : Path} {t t' : Tree} {round : Round}

/-- A run deletes first and then writes. -/
theorem Runs.regularRun (h : round.Runs base t t') (hbase : base.text ≠ "")
    (hregular : round.set.Regular base) (hready : Ready base t) :
    ∃ t₀, RegularRun base round.set t t₀ t' := by
  cases round with
  | write s =>
    obtain ⟨report, hrun⟩ := h
    obtain ⟨t₀, hdelete, hwrite, -⟩ := runs_writeAll.mp hrun
    exact ⟨t₀, hbase, hregular, hready, hdelete, _, hwrite⟩
  | clean =>
    obtain ⟨files, hrun⟩ := h
    have hstale : stale t base .empty = t.generated base := List.filter_eq_self.mpr fun _ _ => rfl
    refine ⟨t', hbase, hregular, hready, ?_, ([], []), runs_writeEach_nil.mpr ⟨rfl, rfl⟩⟩
    rw [set, hstale]
    exact (runs_clean.mp hrun).1

end Round

/-- Runs succeed one after the other. -/
inductive Rounds (base : Path) : Tree → List Round → Tree → Prop
  /-- There is no run. -/
  | nil (t : Tree) : Rounds base t [] t
  /-- There is a run after others. -/
  | snoc {t t' t'' : Tree} {rounds : List Round} {round : Round} (first : Rounds base t rounds t')
      (last : round.Runs base t' t'') : Rounds base t (rounds ++ [round]) t''

variable {base : Path} {t t' : Tree}

/-- Runs with recognised files lead from trees in which runs may start to such trees. -/
theorem Rounds.ready {rounds : List Round} (h : Rounds base t rounds t') (hbase : base.text ≠ "")
    (hregular : ∀ round ∈ rounds, round.set.Regular base) (hready : Ready base t) :
    Ready base t' := by
  induction h with
  | nil => exact hready
  | snoc first last ih =>
    obtain ⟨t₀, hrun⟩ := last.regularRun hbase
      (hregular _ (List.mem_append_right _ List.mem_cons_self))
      (ih fun round hround => hregular round (List.mem_append_left _ hround))
    exact hrun.ready

/-- After each run the generated files below the base are the files of this run, and each of them
holds its text. The same run once more would leave all of them unchanged and delete nothing. -/
theorem generated_after_rounds (ht : t.WellFormed) (hbase : base.text ≠ "")
    (hlinks : t.Linkless base) (honward : t.Onward base)
    {rounds : List Round} {round : Round} {t₁ : Tree} (hrounds : Rounds base t rounds t₁)
    (hround : round.Runs base t₁ t') (hregular : ∀ r ∈ round :: rounds, r.set.Regular base) :
    (∀ names content, t'.HoldsGenerated base names content ↔
      ∃ file ∈ round.set.files, file.names = names ∧ file.content = content) ∧
    (∀ file ∈ round.set.files, t'.text? (file.fullPath base) = some file.content) ∧
    Disk.Runs (writeAll base round.set) t' ⟨[], round.set.files.map (·.path), []⟩ t' := by
  have hready : Ready base t₁ :=
    hrounds.ready hbase (fun r hr => hregular r (List.mem_cons_of_mem _ hr))
      (ht.ready hlinks honward)
  obtain ⟨t₀, hrun⟩ := hround.regularRun hbase (hregular round List.mem_cons_self) hready
  exact ⟨fun names content => hrun.holdsGenerated_iff, fun file hfile => hrun.text?_eq hfile,
    hrun.again⟩

/-! ### Two runs over one folder -/

/-- The files that have been added are regular. -/
theorem mixedFiles_regular : (OutputSet.empty.addAll mixedFiles).Regular ⟨"out"⟩ := by
  have hfiles : OutputSet.empty.addAll mixedFiles =
      ⟨[⟨"a.ts", "// contractgen: generated content, do not edit\n"⟩,
        ⟨"b.ts", "// contractgen: generated content, do not edit\nB\n"⟩]⟩ := by decide +kernel
  have hlast (stem : String) (hstem : stem ∈ ["a", "b"]) : stem ≠ "" ∧
      (Text.splitAt '/' (stem ++ ".ts")).getLast? = some (stem ++ ".ts") := by
    revert stem
    decide +kernel
  rw [hfiles]
  refine ⟨fun file hfile => ?_, by decide +kernel, by decide +kernel, by decide +kernel⟩
  simp only [List.mem_cons, List.not_mem_nil, or_false] at hfile
  rcases hfile with rfl | rfl
  · exact ⟨"a", hlast "a" (by simp)⟩
  · exact ⟨"b", hlast "b" (by simp)⟩

/-- The output folder after it has been cleaned. -/
def mixedCleaned : Tree :=
  ⟨[], [(["out"], .folder), (["out", "mine.ts"], .file (.text "export type Mine = {};\n"))]⟩

/-- Cleaning the output folder deletes the two generated files. -/
theorem runs_mixedCleaned :
    Disk.Runs (Disk.clean ⟨"out"⟩ false) mixedAfter [⟨"out/a.ts"⟩, ⟨"out/b.ts"⟩] mixedCleaned := by
  have hfolder : mixedAfter.locate true ⟨"out"⟩ = .taken ["out"] :=
    locate_eq_of_walkWithin 4 (by decide +kernel)
  have ha : mixedAfter.locate false ⟨"out/a.ts"⟩ = .taken ["out", "a.ts"] :=
    locate_eq_of_walkWithin 4 (by decide +kernel)
  have hb : (mixedAfter.erase ["out", "a.ts"]).locate false ⟨"out/b.ts"⟩ = .taken ["out", "b.ts"] :=
    locate_eq_of_walkWithin 4 (by decide +kernel)
  have hgenerated : mixedAfter.generated ⟨"out"⟩ = [⟨"out/a.ts"⟩, ⟨"out/b.ts"⟩] := by
    rw [generated, reachable, hfolder]
    decide +kernel
  have hprune (p : Path) (hp : p ∈ [(⟨"out/a.ts"⟩ : Path), ⟨"out/b.ts"⟩]) (t : Tree) :
      Disk.Runs (prune (foldersBelow ⟨"out"⟩ p)) t () t := by
    have hnone : ∀ p ∈ [(⟨"out/a.ts"⟩ : Path), ⟨"out/b.ts"⟩], foldersBelow ⟨"out"⟩ p = [] := by
      decide +kernel
    rw [hnone p hp]
    exact runs_pure.mpr ⟨rfl, rfl⟩
  refine runs_clean.mpr ⟨?_, hgenerated.symm⟩
  rw [hgenerated]
  refine runs_bind.mpr ⟨(), mixedAfter.erase ["out", "a.ts"],
    runs_bind.mpr ⟨(), _, runs_change.mpr ?_, hprune _ (by simp) _⟩,
    runs_bind.mpr ⟨(), mixedCleaned,
      runs_bind.mpr ⟨(), _, runs_change.mpr ?_, hprune _ (by simp) _⟩, runs_pure.mpr ⟨rfl, rfl⟩⟩⟩
  · rw [withoutFile?, ha]
    rfl
  · rw [withoutFile?, hb]
    rfl

/-- A run with one file. -/
def single : OutputSet := ⟨[⟨"a.ts", "// contractgen: generated content, do not edit\n"⟩]⟩

/-- The single file is regular below every base. -/
theorem single_regular (base : Path) : single.Regular base := by
  refine ⟨?_, by decide +kernel, List.pairwise_singleton _ _, by decide +kernel⟩
  simp only [single, List.mem_singleton, forall_eq]
  exact ⟨"a", by decide, by decide +kernel⟩

/-- A tree with a link that leads up and out of its folder, and without an output folder. -/
def unbuilt : Tree :=
  ⟨[], [(["bin"], .folder), (["bin", "tool"], .link "../pkg/tool"), (["pkg"], .folder)]⟩

/-- The tree after the output folder has been made for one file. -/
def built : Tree :=
  (unbuilt.put ["gen"] .folder).put ["gen", "a.ts"]
    (.file (.text "// contractgen: generated content, do not edit\n"))

/-- The first run makes the output folder and writes the file. -/
theorem runs_built : Disk.Runs (writeAll ⟨"gen"⟩ single) unbuilt ⟨["a.ts"], [], []⟩ built := by
  have hbase : unbuilt.locate true ⟨"gen"⟩ = .free ["gen"] false :=
    locate_eq_of_walkWithin 4 (by decide +kernel)
  have hfile : unbuilt.locate true ⟨"gen/a.ts"⟩ = .nowhere :=
    locate_eq_of_walkWithin 4 (by decide +kernel)
  have hstale : stale unbuilt ⟨"gen"⟩ single = [] := by
    rw [stale, generated, reachable, hbase]
    rfl
  have hfull : OutputFile.fullPath ⟨"a.ts", "// contractgen: generated content, do not edit\n"⟩
      ⟨"gen"⟩ = ⟨"gen/a.ts"⟩ := by decide +kernel
  refine runs_writeAll_single hstale hfull (by simp [text?, get?, hfile]) ?_
  have hparent : Path.parent? ⟨"gen/a.ts"⟩ = some ⟨"gen"⟩ := by decide +kernel
  have hfree : unbuilt.locate false ⟨"gen"⟩ = .free ["gen"] false :=
    locate_eq_of_walkWithin 4 (by decide +kernel)
  have hfolders : (⟨"gen"⟩ :: Path.ancestors ⟨"gen"⟩).reverse.filter
      (fun folder => !folder.text.isEmpty) = [(⟨"gen"⟩ : Path)] := by decide +kernel
  have husable : Path.isUsable ⟨"gen"⟩ = true := by decide +kernel
  have hwritten : Tree.locate (unbuilt.put ["gen"] .folder) true ⟨"gen/a.ts"⟩ =
      .free ["gen", "a.ts"] false := locate_eq_of_walkWithin 5 (by decide +kernel)
  unfold write
  rw [hparent]
  refine runs_bind.mpr ⟨(), unbuilt.put ["gen"] .folder, ?_, runs_change.mpr ?_⟩
  · unfold makeFolder
    rw [if_neg (by decide), husable, Bool.not_true, if_neg Bool.false_ne_true, hfolders]
    refine runs_bind.mpr ⟨(), unbuilt.put ["gen"] .folder, runs_change.mpr ?_,
      runs_pure.mpr ⟨rfl, rfl⟩⟩
    simp [withFolder?, isFolder, get?, hbase, hfree]
  · rw [withFile?, hwritten]
    rfl

/-- A run that writes files could be repeated at once without an effect, and no generated file is
left after the folder has been cleaned. The first run may have to make the output folder. -/
theorem generated_after_rounds_mixed :
    Rounds ⟨"out"⟩ mixed [.write (OutputSet.empty.addAll mixedFiles)] mixedAfter ∧
    Round.clean.Runs ⟨"out"⟩ mixedAfter mixedCleaned ∧
    Disk.Runs (writeAll ⟨"out"⟩ (OutputSet.empty.addAll mixedFiles)) mixedAfter
      ⟨[], ["a.ts", "b.ts"], []⟩ mixedAfter ∧
    (∀ names content, ¬mixedCleaned.HoldsGenerated ⟨"out"⟩ names content) ∧
    unbuilt.get? ⟨"gen"⟩ = none ∧ (Round.write single).Runs ⟨"gen"⟩ unbuilt built ∧
    Disk.Runs (writeAll ⟨"gen"⟩ single) built ⟨[], ["a.ts"], []⟩ built := by
  have hwrite : (Round.write (OutputSet.empty.addAll mixedFiles)).Runs ⟨"out"⟩ mixed mixedAfter :=
    ⟨_, runs_mixed⟩
  have hrounds : Rounds ⟨"out"⟩ mixed [.write (OutputSet.empty.addAll mixedFiles)] mixedAfter :=
    .snoc (.nil mixed) hwrite
  have hround : Round.clean.Runs ⟨"out"⟩ mixedAfter mixedCleaned := ⟨_, runs_mixedCleaned⟩
  have hlinks : mixed.Linkless ⟨"out"⟩ := by
    intro folder hfolder below target hmem
    exact mixed_linkFree _ target (mixed_wellFormed.mem_inside.mp hmem).2
  have hfolder : mixed.locate true ⟨"out"⟩ = .taken ["out"] :=
    locate_eq_of_walkWithin 4 (by decide +kernel)
  have honward : mixed.Onward ⟨"out"⟩ := .of_locate hfolder
  have hregular : ∀ r ∈ [Round.clean, .write (OutputSet.empty.addAll mixedFiles)],
      r.set.Regular ⟨"out"⟩ := by
    intro r hr
    simp only [List.mem_cons, List.not_mem_nil, or_false] at hr
    rcases hr with rfl | rfl
    · exact ⟨List.forall_mem_nil _, List.forall_mem_nil _, .nil, List.forall_mem_nil _⟩
    · exact mixedFiles_regular
  obtain ⟨-, -, hagain⟩ := generated_after_rounds mixed_wellFormed (by decide) hlinks honward
    (.nil mixed) hwrite fun r hr => hregular r (List.mem_cons_of_mem _ hr)
  obtain ⟨hgenerated, -, -⟩ := generated_after_rounds mixed_wellFormed (by decide) hlinks honward
    hrounds hround hregular
  have hpaths : (OutputSet.empty.addAll mixedFiles).files.map (·.path) = ["a.ts", "b.ts"] := by
    decide +kernel
  have hmissing : unbuilt.locate true ⟨"gen"⟩ = .free ["gen"] false :=
    locate_eq_of_walkWithin 4 (by decide +kernel)
  have hunbuilt : unbuilt.WellFormed := ⟨by decide +kernel, by decide +kernel, by decide +kernel⟩
  have hnolinks : unbuilt.Linkless ⟨"gen"⟩ := by
    intro folder hleads
    rw [locate_eq (by decide +kernel)] at hmissing
    cases hmissing.symm.trans hleads
  have hbuilt : (Round.write single).Runs ⟨"gen"⟩ unbuilt built := ⟨_, runs_built⟩
  obtain ⟨-, -, hrepeated⟩ := generated_after_rounds hunbuilt (by decide) hnolinks
    (.of_not_mem unbuilt (by decide +kernel)) (.nil unbuilt) hbuilt
    fun r hr => List.mem_singleton.mp hr ▸ single_regular ⟨"gen"⟩
  refine ⟨hrounds, hround, hpaths ▸ hagain, fun names content hholds => ?_, ?_, hbuilt, hrepeated⟩
  · obtain ⟨file, hfile, -⟩ := (hgenerated names content).mp hholds
    cases hfile
  · rw [get?, hmissing]

/-! ### Bases that lead astray -/

/-- An output folder in which a link leads to a file that is not there. -/
def linked : Tree := ⟨[], [(["out"], .folder), (["out", "a.ts"], .link "b.ts")]⟩

/-- The output folder after the file has been written through the link. -/
def linkedAfter : Tree :=
  linked.put ["out", "b.ts"] (.file (.text "// contractgen: generated content, do not edit\n"))

/-- The run writes the text to where the link leads. -/
theorem runs_linked :
    Disk.Runs (writeAll ⟨"out"⟩ single) linked ⟨["a.ts"], [], []⟩ linkedAfter := by
  have hfolder : linked.locate true ⟨"out"⟩ = .taken ["out"] :=
    locate_eq_of_walkWithin 4 (by decide +kernel)
  have hfile : linked.locate true ⟨"out/a.ts"⟩ = .free ["out", "b.ts"] false :=
    locate_eq_of_walkWithin 4 (by decide +kernel)
  have hstale : stale linked ⟨"out"⟩ single = [] := by
    rw [stale, generated, reachable, hfolder]
    decide +kernel
  have hfull : OutputFile.fullPath ⟨"a.ts", "// contractgen: generated content, do not edit\n"⟩
      ⟨"out"⟩ = ⟨"out/a.ts"⟩ := by decide +kernel
  refine runs_writeAll_single hstale hfull ?_
    (runs_write_of_isFolder ⟨"out"⟩ (by decide +kernel) (fun _ => by decide +kernel) ?_ ?_)
  · simp [text?, get?, hfile]
  · have hfolders : ⟨"out"⟩ :: Path.ancestors ⟨"out"⟩ = [(⟨"out"⟩ : Path), ⟨""⟩] := by
      decide +kernel
    simpa [hfolders] using isFolder_of_locate hfolder rfl
  · rw [withFile?, hfile]
    rfl

/-- A generated file in a folder. -/
def outdated : Tree :=
  ⟨[], [(["out"], .folder),
    (["out", "old.ts"], .file (.text "// contractgen: generated content, do not edit\nold\n"))]⟩

/-- The tree after a folder has been made on the way to the base. -/
def outdatedBetween : Tree := outdated.put ["nope"] .folder

/-- The tree after a run whose base goes through a folder that was not there. -/
def outdatedAfter : Tree :=
  outdatedBetween.put ["out", "a.ts"]
    (.file (.text "// contractgen: generated content, do not edit\n"))

/-- The run leaves the generated file that was there, as the base led nowhere when it started. -/
theorem runs_outdated :
    Disk.Runs (writeAll ⟨"nope/../out"⟩ single) outdated ⟨["a.ts"], [], []⟩ outdatedAfter := by
  have hbase : outdated.locate true ⟨"nope/../out"⟩ = .nowhere :=
    locate_eq_of_walkWithin 4 (by decide +kernel)
  have hfile : outdated.locate true ⟨"nope/../out/a.ts"⟩ = .nowhere :=
    locate_eq_of_walkWithin 5 (by decide +kernel)
  have hstale : stale outdated ⟨"nope/../out"⟩ single = [] := by
    rw [stale, generated, reachable, hbase]
    rfl
  have hfull : OutputFile.fullPath ⟨"a.ts", "// contractgen: generated content, do not edit\n"⟩
      ⟨"nope/../out"⟩ = ⟨"nope/../out/a.ts"⟩ := by decide +kernel
  have hparent : Path.parent? ⟨"nope/../out/a.ts"⟩ = some ⟨"nope/../out"⟩ := by decide +kernel
  refine runs_writeAll_single hstale hfull ?_ ?_
  · simp [text?, get?, hfile]
  · have hnope : outdated.locate true ⟨"nope"⟩ = .free ["nope"] false :=
      locate_eq_of_walkWithin 4 (by decide +kernel)
    have hfree : outdated.locate false ⟨"nope"⟩ = .free ["nope"] false :=
      locate_eq_of_walkWithin 4 (by decide +kernel)
    have hup : outdatedBetween.locate true ⟨"nope/.."⟩ = .taken [] :=
      locate_eq_of_walkWithin 4 (by decide +kernel)
    have hthere : outdatedBetween.locate true ⟨"nope/../out"⟩ = .taken ["out"] :=
      locate_eq_of_walkWithin 4 (by decide +kernel)
    have hwritten : outdatedBetween.locate true ⟨"nope/../out/a.ts"⟩ =
        .free ["out", "a.ts"] false := locate_eq_of_walkWithin 5 (by decide +kernel)
    have hfolders : (⟨"nope/../out"⟩ :: Path.ancestors ⟨"nope/../out"⟩).reverse.filter
        (fun folder => !folder.text.isEmpty) =
          [(⟨"nope"⟩ : Path), ⟨"nope/.."⟩, ⟨"nope/../out"⟩] := by decide +kernel
    have husable : Path.isUsable ⟨"nope/../out"⟩ = true := by decide +kernel
    unfold write
    rw [hparent]
    refine runs_bind.mpr ⟨(), outdatedBetween, ?_, runs_change.mpr ?_⟩
    · unfold makeFolder
      rw [if_neg (by decide), husable, Bool.not_true, if_neg Bool.false_ne_true, hfolders]
      refine runs_bind.mpr ⟨(), outdatedBetween, runs_change.mpr ?_,
        runs_bind.mpr ⟨(), outdatedBetween, runs_change.mpr ?_,
          runs_bind.mpr ⟨(), outdatedBetween, runs_change.mpr ?_, runs_pure.mpr ⟨rfl, rfl⟩⟩⟩⟩
      · simp [withFolder?, isFolder, get?, hnope, hfree, outdatedBetween]
      · rw [withFolder?, if_pos (isFolder_of_locate hup rfl)]
      · rw [withFolder?, if_pos (isFolder_of_locate hthere rfl)]
    · rw [withFile?, hwritten]
      rfl

/-- A generated file at home. -/
def atHome : Tree :=
  ⟨[], [(["old.ts"], .file (.text "// contractgen: generated content, do not edit\nold\n"))]⟩

/-- The tree after a run whose base is empty. -/
def atHomeAfter : Tree :=
  atHome.put ["a.ts"] (.file (.text "// contractgen: generated content, do not edit\n"))

/-- The run leaves the generated file that was there, as an empty base lists nothing. -/
theorem runs_atHome : Disk.Runs (writeAll ⟨""⟩ single) atHome ⟨["a.ts"], [], []⟩ atHomeAfter := by
  have hbase : atHome.locate true ⟨""⟩ = .nowhere := locate_eq_of_walkWithin 4 (by decide +kernel)
  have hfile : atHome.locate true ⟨"a.ts"⟩ = .free ["a.ts"] false :=
    locate_eq_of_walkWithin 4 (by decide +kernel)
  have hstale : stale atHome ⟨""⟩ single = [] := by
    rw [stale, generated, reachable, hbase]
    rfl
  have hfull : OutputFile.fullPath ⟨"a.ts", "// contractgen: generated content, do not edit\n"⟩
      ⟨""⟩ = ⟨"a.ts"⟩ := by decide +kernel
  refine runs_writeAll_single hstale hfull ?_
    (runs_write_of_isFolder ⟨""⟩ (by decide +kernel) (by decide) ?_ ?_)
  · simp [text?, get?, hfile]
  · have hfolders : ⟨""⟩ :: Path.ancestors ⟨""⟩ = [(⟨""⟩ : Path)] := by decide +kernel
    simp [hfolders]
  · rw [withFile?, hfile]
    rfl

/-- Runs go astray through a link below the base, through a base with steps up that leads nowhere at
first, and from the empty base: afterwards there are generated files which are not planned. -/
theorem rounds_astray :
    (linked.WellFormed ∧ single.Regular ⟨"out"⟩ ∧
      (Round.write single).Runs ⟨"out"⟩ linked linkedAfter ∧
      linkedAfter.HoldsGenerated ⟨"out"⟩ ["b.ts"]
        "// contractgen: generated content, do not edit\n") ∧
    (outdated.WellFormed ∧ single.Regular ⟨"nope/../out"⟩ ∧
      (Round.write single).Runs ⟨"nope/../out"⟩ outdated outdatedAfter ∧
      outdatedAfter.HoldsGenerated ⟨"nope/../out"⟩ ["old.ts"]
        "// contractgen: generated content, do not edit\nold\n") ∧
    (atHome.WellFormed ∧ single.Regular ⟨""⟩ ∧
      (Round.write single).Runs ⟨""⟩ atHome atHomeAfter ∧
      atHomeAfter.HoldsGenerated ⟨"."⟩ ["old.ts"]
        "// contractgen: generated content, do not edit\nold\n") ∧
    ∀ file ∈ single.files, file.names ≠ ["b.ts"] ∧ file.names ≠ ["old.ts"] := by
  refine ⟨⟨?_, single_regular _, ⟨_, runs_linked⟩, ?_⟩,
    ⟨?_, single_regular _, ⟨_, runs_outdated⟩, ?_⟩, ⟨?_, single_regular _, ⟨_, runs_atHome⟩, ?_⟩,
    by decide +kernel⟩
  · exact ⟨by decide +kernel, by decide +kernel, by decide +kernel⟩
  · exact ⟨["out"], locate_eq_of_walkWithin 4 (by decide +kernel), by decide, by decide +kernel,
      by decide +kernel⟩
  · exact ⟨by decide +kernel, by decide +kernel, by decide +kernel⟩
  · exact ⟨["out"], locate_eq_of_walkWithin 4 (by decide +kernel), by decide, by decide +kernel,
      by decide +kernel⟩
  · exact ⟨by decide +kernel, by decide +kernel, by decide +kernel⟩
  · exact ⟨[], locate_eq_of_walkWithin 4 (by decide +kernel), by decide, by decide +kernel,
      by decide +kernel⟩

end Declgen.Files
