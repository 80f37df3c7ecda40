import Declgen.Proofs.EraseDups
import Declgen.Proofs.Files.Linkless
import Mathlib.Data.List.Nodup

/-!
# What a run writes

In a tree without links, a run that succeeds leaves the files which are there after all generated
files have been deleted and all planned files have been written. It does less than that: generated
files that are planned are not deleted, and files that are up to date are not written.
-/

namespace Declgen.Files

open Disk Files.Tree

/-! ### The files of a run -/

/-- The files of a run: the paths in the order in which they were added first, each with the file
that was added last. -/
def planOf (files : List OutputFile) : List OutputFile :=
  (files.map (·.path)).eraseDups.filterMap fun path => files.reverse.find? (·.path = path)

/-- A file that is added gets a new place only if its path is new. -/
theorem map_path_putFile (file : OutputFile) (files : List OutputFile) :
    (putFile file files).map (·.path) =
      if file.path ∈ files.map (·.path) then files.map (·.path)
      else files.map (·.path) ++ [file.path] := by
  induction files with
  | nil => rfl
  | cons first files ih =>
    rw [putFile]
    by_cases heq : first.path = file.path
    · simp [heq]
    · rw [if_neg heq, List.map_cons, ih, List.map_cons]
      by_cases hmem : file.path ∈ files.map (·.path)
      · rw [if_pos hmem, if_pos (List.mem_cons_of_mem _ hmem)]
      · rw [if_neg hmem, if_neg, List.cons_append]
        exact fun h => (List.mem_cons.mp h).elim (Ne.symm heq) hmem

/-- A file takes the place of the one with the same path. -/
theorem mem_putFile {file other : OutputFile} {files : List OutputFile}
    (hnodup : (files.map (·.path)).Nodup) (h : other ∈ putFile file files) :
    other = file ∨ other ∈ files ∧ other.path ≠ file.path := by
  induction files with
  | nil => exact .inl (List.mem_singleton.mp h)
  | cons first files ih =>
    rw [List.map_cons, List.nodup_cons] at hnodup
    rw [putFile] at h
    split at h
    · rename_i heq
      rcases List.mem_cons.mp h with h | h
      · exact .inl h
      · refine .inr ⟨List.mem_cons_of_mem _ h, fun hpath => hnodup.1 ?_⟩
        rw [heq, ← hpath]
        exact List.mem_map_of_mem h
    · rename_i hne
      rcases List.mem_cons.mp h with rfl | h
      · exact .inr ⟨List.mem_cons_self, hne⟩
      · exact (ih hnodup.2 h).imp_right (And.imp_left (List.mem_cons_of_mem _))

/-- The paths of added files are in order, and the file with each of them is the last one. -/
theorem OutputSet.added (files : List OutputFile) :
    (empty.addAll files).files.map (·.path) = (files.map (·.path)).eraseDups ∧
      ∀ file ∈ (empty.addAll files).files,
        files.reverse.find? (·.path = file.path) = some file := by
  induction files using List.reverseRecOn with
  | nil => exact ⟨rfl, nofun⟩
  | append_singleton files file ih =>
    obtain ⟨hpaths, hlast⟩ := ih
    have hadd : (empty.addAll (files ++ [file])).files =
        putFile file (empty.addAll files).files := by
      rw [addAll, List.foldl_concat]
      rfl
    have hnodup : ((empty.addAll files).files.map (·.path)).Nodup := by
      rw [hpaths]
      exact nodup_eraseDups _
    rw [hadd]
    constructor
    · rw [map_path_putFile, hpaths, List.map_append, List.map_singleton, eraseDups_concat]
      simp only [List.mem_eraseDups]
    · intro other hother
      rw [List.reverse_append, List.reverse_singleton, List.singleton_append, List.find?_cons]
      rcases mem_putFile hnodup hother with rfl | ⟨hother, hne⟩
      · simp
      · simpa [Ne.symm hne] using hlast other hother

/-- Of the files that are added, the last one with a path stands where the first one was put. -/
theorem OutputSet.files_addAll_empty (files : List OutputFile) :
    (empty.addAll files).files = planOf files := by
  obtain ⟨hpaths, hlast⟩ := added files
  have hself : (empty.addAll files).files.filterMap
      ((fun path => files.reverse.find? (·.path = path)) ∘ (·.path)) =
        (empty.addAll files).files.filterMap some := List.filterMap_congr hlast
  rw [planOf, ← hpaths, List.filterMap_map, hself, List.filterMap_some]

/-- No path is planned twice. -/
theorem nodup_path_planOf (files : List OutputFile) : ((planOf files).map (·.path)).Nodup := by
  rw [← OutputSet.files_addAll_empty, (OutputSet.added files).1]
  exact nodup_eraseDups _

/-- What is planned has been added. -/
theorem mem_of_mem_planOf {files : List OutputFile} {file : OutputFile} (h : file ∈ planOf files) :
    file ∈ files := by
  obtain ⟨path, -, hlast⟩ := List.mem_filterMap.mp h
  exact List.mem_reverse.mp (List.mem_of_find?_eq_some hlast)

/-! ### Reports -/

section Reports

variable {t t' : Tree} {base : Path} {files : List OutputFile} {paths : List String × List String}

/-- Every path is reported as written or as unchanged, in order. -/
theorem Disk.paths_of_writeEach (h : Runs (writeEach base files) t paths t') :
    paths.1.Sublist (files.map (·.path)) ∧ paths.2.Sublist (files.map (·.path)) ∧
      (paths.1 ++ paths.2).Perm (files.map (·.path)) := by
  induction files generalizing t paths with
  | nil =>
    obtain ⟨rfl, -⟩ := runs_writeEach_nil.mp h
    exact ⟨.slnil, .slnil, .refl _⟩
  | cons file files ih =>
    obtain ⟨changed, t₁, rest, -, hrest, rfl⟩ := runs_writeEach_cons.mp h
    obtain ⟨hwritten, hunchanged, hperm⟩ := ih hrest
    cases changed with
    | true => exact ⟨hwritten.cons_cons _, hunchanged.cons _, hperm.cons _⟩
    | false =>
      exact ⟨hwritten.cons _, hunchanged.cons_cons _, List.perm_middle.trans (hperm.cons _)⟩

/-- A path is reported as unchanged if the file holds its text when it is reached. -/
theorem Disk.reached_of_writeEach {before after : List OutputFile} {file : OutputFile}
    (h : Runs (writeEach base (before ++ file :: after)) t paths t')
    (hnodup : ((before ++ file :: after).map (·.path)).Nodup) :
    ∃ paths₁ t₁, Runs (writeEach base before) t paths₁ t₁ ∧
      (file.path ∈ paths.2 ↔ t₁.text? (file.fullPath base) = some file.content) := by
  induction before generalizing t paths with
  | nil =>
    obtain ⟨changed, t₁, rest, hfirst, hrest, rfl⟩ := runs_writeEach_cons.mp h
    have hnot : file.path ∉ rest.2 := fun hmem =>
      (List.nodup_cons.mp hnodup).1 ((paths_of_writeEach hrest).2.1.mem hmem)
    refine ⟨_, t, runs_writeEach_nil.mpr ⟨rfl, rfl⟩, ?_⟩
    rcases runs_writeIfChanged.mp hfirst with ⟨rfl, htext, -⟩ | ⟨rfl, htext, -⟩
    · simp [withPath, htext]
    · simp [withPath, htext, hnot]
  | cons first before ih =>
    obtain ⟨changed, t₁, rest, hfirst, hrest, rfl⟩ := runs_writeEach_cons.mp h
    rw [List.cons_append, List.map_cons, List.nodup_cons] at hnodup
    obtain ⟨paths₁, t₂, hbefore, hiff⟩ := ih hrest hnodup.2
    have hne : file.path ≠ first.path := by
      intro heq
      refine hnodup.1 (heq ▸ ?_)
      exact List.mem_map_of_mem (List.mem_append_right _ List.mem_cons_self)
    refine ⟨_, t₂, runs_writeEach_cons.mpr ⟨changed, t₁, paths₁, hfirst, hbefore, rfl⟩, ?_⟩
    rw [← hiff]
    cases changed <;> simp [withPath, hne]

end Reports

/-! ### Places -/

section Places

variable {t t' : Tree} {base p : Path} {key : Key} {files : List OutputFile}

/-- A path with a slash at its end leads to no file. -/
theorem Tree.folder_of_slash (hlast : p.segments.getLast? = some "")
    (hlocate : t.locate true p = .taken key) : t.entry? key = some .folder := by
  obtain ⟨above, habove⟩ := List.getLast?_eq_some_iff.mp hlast
  rw [locate_eq (usable_of_taken hlocate), start, habove] at hlocate
  obtain ⟨links, hway⟩ := siteAt_eq_taken.mp hlocate
  obtain ⟨links', folder, -, hslash⟩ := hway.exists_of_append
  obtain ⟨rfl, hfolder⟩ := hslash.of_slash
  exact hfolder

/-- A file that has been written has a path that ends with a name. -/
theorem Tree.Wrote.plain {file : OutputFile} {content : Content}
    (h : Wrote t (file.fullPath base) content key t')
    (hstays : ∀ segment ∈ Text.splitAt '/' file.path, segment ≠ "." ∧ segment ≠ "..") :
    file.Plain := by
  refine ⟨fun hlast => ?_, fun name hname => hstays name (List.mem_filter.mp hname).1⟩
  have hfolder := folder_of_slash (OutputFile.getLast?_segments_fullPath hlast base) h.locate
  rw [h.entry] at hfolder
  cases hfolder

/-- Files that have been written are plain if no segment of their paths is a dot or two. -/
theorem Tree.WroteAll.plain (h : WroteAll base t files t')
    (hstays : ∀ file ∈ files, ∀ segment ∈ Text.splitAt '/' file.path,
      segment ≠ "." ∧ segment ≠ "..") : ∀ file ∈ files, file.Plain := by
  induction h with
  | nil => nofun
  | cons first _ ih =>
    intro file hfile
    rcases List.mem_cons.mp hfile with rfl | hfile
    · exact first.plain (hstays _ List.mem_cons_self)
    · exact ih (fun file hfile => hstays file (List.mem_cons_of_mem _ hfile)) file hfile

/-- What is stale are the generated files in whose places no file is planned. -/
theorem Tree.LinkFree.mem_stale (h : t.LinkFree) (ht : t.WellFormed) {s : OutputSet}
    (hplain : ∀ file ∈ s.files, file.Plain) :
    key ∈ (stale t base s).map t.place ↔ t.isGeneratedAt base key = true ∧
      key ∉ s.files.map fun file => t.place (file.fullPath base) := by
  have hplaces (names : List String) :
      t.place base ++ names ∉ (s.files.map fun file => t.place (file.fullPath base)) ↔
        ∀ file ∈ s.files, file.names ≠ names := by
    rw [List.mem_map, not_exists]
    refine forall_congr' fun file => ?_
    rw [not_and]
    refine imp_congr_right fun hfile => ?_
    rw [place_fullPath (hplain file hfile), List.append_cancel_left_eq]
  have hnames {names : List String} (hgenerated : t.isGeneratedAt base (t.place base ++ names)) :
      ∀ name ∈ names, IsName name := by
    rw [isGeneratedAt, Bool.and_eq_true] at hgenerated
    obtain ⟨content, hcontent⟩ := exists_of_isMarked hgenerated.2
    exact ht.isName_below (file?_eq_some.mp hcontent)
  constructor
  · intro hkey
    obtain ⟨p, hp, rfl⟩ := List.mem_map.mp hkey
    obtain ⟨names, rfl, hgenerated⟩ := (h.mem_generated ht).mp (List.mem_filter.mp hp).1
    rw [place_below (hnames hgenerated), hplaces]
    exact ⟨hgenerated, ((mem_stale_below hplain (hnames hgenerated)).mp hp).2⟩
  · rintro ⟨hgenerated, hfresh⟩
    have hprefix := hgenerated
    rw [isGeneratedAt, Bool.and_eq_true, Bool.and_eq_true, List.isPrefixOf_iff_prefix] at hprefix
    obtain ⟨⟨-, names, rfl⟩, -⟩ := hprefix
    refine List.mem_map.mpr ⟨base.below names, ?_, place_below (hnames hgenerated) t base⟩
    exact (mem_stale_below hplain (hnames hgenerated)).mpr
      ⟨(h.mem_generated ht).mpr ⟨names, rfl, hgenerated⟩, (hplaces names).mp hfresh⟩

/-- Every entry inside a folder is listed once. -/
theorem Tree.WellFormed.nodup_inside (ht : t.WellFormed) (root : Key) : (t.inside root).Nodup := by
  have hkeys : (t.entries.map (·.1)).Nodup := by
    refine List.Pairwise.imp (fun {key key'} hlt => ?_) ht.ordered
    rintro rfl
    exact List.lt_irrefl key hlt
  refine hkeys.of_map.filterMap fun entry entry' found hfound hfound' => ?_
  rw [Option.mem_def] at hfound hfound'
  have hentry {entry : Key × Entry} (h : (if root.isPrefixOf entry.1 &&
      root.length < entry.1.length then some (entry.1.drop root.length, entry.2) else none) =
        some found) : entry = (root ++ found.1, found.2) := by
    split at h
    · rename_i hprefix
      rw [Bool.and_eq_true, List.isPrefixOf_iff_prefix] at hprefix
      obtain ⟨⟨names, hnames⟩, -⟩ := hprefix
      cases h
      rw [← hnames, List.drop_left, hnames]
    · cases h
  rw [hentry hfound, hentry hfound']

/-- Every generated file is listed once. -/
theorem Tree.WellFormed.nodup_generated (ht : t.WellFormed) (base : Path) :
    ((t.generated base).map t.place).Nodup := by
  have hreach : ((t.reachable base).map fun entry => t.place entry.1).Nodup := by
    unfold reachable
    split
    · rename_i root hbase
      split
      · rw [List.map_map]
        refine (ht.nodup_inside root).map_on fun entry hentry entry' hentry' heq => ?_
        have hplace {entry : Key × Entry} (hentry : entry ∈ t.inside root) :
            t.place (base.below entry.1) = t.place base ++ entry.1 :=
          place_below (ht.isName_below (ht.mem_inside.mp hentry).2) t base
        have hnames : entry.1 = entry'.1 := by
          have happend : t.place base ++ entry.1 = t.place base ++ entry'.1 := by
            rw [← hplace hentry, ← hplace hentry']
            exact heq
          exact List.append_cancel_left happend
        have hsame := (ht.mem_inside.mp hentry).2
        rw [hnames, (ht.mem_inside.mp hentry').2] at hsame
        exact Prod.ext hnames (Option.some.inj hsame).symm
      · split
        · rename_i key hfile
          cases t.entry? key <;> simp
        · exact List.nodup_nil
    · exact List.nodup_nil
  rw [generated, List.map_map]
  exact hreach.sublist (List.filter_sublist.map _)

/-! ### Runs -/

/-- The files of a tree after all generated files of a base have been deleted and the texts of
files have been put in their places, in order. -/
def Tree.rewritten (t : Tree) (base : Path) (files : List OutputFile) : Key → Option Content :=
  overwrite (fun file => t.place (file.fullPath base)) files
    fun key => if t.isGeneratedAt base key then none else t.file? key

/-- What a run does that puts the files of a plan below a base, and what it reports. -/
structure Rewrites (base : Path) (plan : List OutputFile) (t : Tree) (report : WriteReport)
    (t' : Tree) : Prop where
  /-- In the end the files are those that are there after all generated files have been deleted
  and all planned files have been written. -/
  files : t'.file? = t.rewritten base plan
  /-- What is reported as deleted are the generated files that are not planned. -/
  deleted : ∀ key, key ∈ report.deleted.map t.place ↔ t.isGeneratedAt base key = true ∧
    key ∉ plan.map fun file => t.place (file.fullPath base)
  /-- None of them is reported twice. -/
  nodup : (report.deleted.map t.place).Nodup
  /-- The written files are reported in order. -/
  written : report.written.Sublist (plan.map (·.path))
  /-- The unchanged files are reported in order. -/
  unchanged : report.unchanged.Sublist (plan.map (·.path))
  /-- Every file is reported as either written or unchanged. -/
  partition : (report.written ++ report.unchanged).Perm (plan.map (·.path))
  /-- A file is unchanged if it holds its text when it is reached, after the deletions and after
  the files before it. -/
  reached : ∀ before file after, plan = before ++ file :: after → ∃ paths t₀ t₁,
    Runs ((stale t base ⟨plan⟩).forM (deleteGenerated base)) t () t₀ ∧
      Runs (writeEach base before) t₀ paths t₁ ∧
        (file.path ∈ report.unchanged ↔ t₁.text? (file.fullPath base) = some file.content)

/-- After the deletions of a run the stale files are gone, and no others. -/
theorem Tree.LinkFree.file?_of_stale (h : t.LinkFree) {paths : List Path}
    (hdelete : Runs (paths.forM (deleteGenerated base)) t () t') (key : Key) :
    t'.file? key = if key ∈ paths.map t.place then none else t.file? key := by
  rw [file?_of_deletions hdelete]
  refine if_congr ?_ rfl rfl
  rw [List.mem_map]
  constructor
  · rintro ⟨p, hp, hlocate⟩
    exact ⟨p, hp, (h.eq_place (.inl hlocate)).symm⟩
  · rintro ⟨p, hp, rfl⟩
    obtain ⟨key, hlocate, -⟩ := gone_of_deletions hdelete hp
    exact ⟨p, hp, h.eq_place (.inl hlocate) ▸ hlocate⟩

/-- A run that succeeds on a tree without links leaves the files that are there after all generated
files have been deleted and all files of the run have been written, and reports what it did. -/
theorem rewrites_of_writeAll (ht : t.WellFormed) (hlinks : t.LinkFree)
    (hstays : ∀ file ∈ files, ∀ segment ∈ Text.splitAt '/' file.path,
      segment ≠ "." ∧ segment ≠ "..") {report : WriteReport}
    (hrun : Runs (writeAll base (OutputSet.empty.addAll files)) t report t') :
    Rewrites base (planOf files) t report t' := by
  obtain ⟨t₀, hdelete, hwrite, hdeleted⟩ := runs_writeAll.mp hrun
  rw [OutputSet.files_addAll_empty] at hwrite
  have hset : OutputSet.empty.addAll files = ⟨planOf files⟩ :=
    congrArg OutputSet.mk (OutputSet.files_addAll_empty files)
  rw [hset] at hrun hdelete hdeleted
  have hwrote := wroteAll_of_writeEach hwrite
  have hplain := hwrote.plain fun file hfile => hstays file (mem_of_mem_planOf hfile)
  have hold : OldLinks t t' :=
    ((closed_oldLinks t).writeAll base ⟨planOf files⟩).of_runs hrun ⟨rfl, fun _ _ h => h⟩
  have hstale (key : Key) : key ∈ (stale t base ⟨planOf files⟩).map t.place ↔
      t.isGeneratedAt base key = true ∧
        key ∉ (planOf files).map fun file => t.place (file.fullPath base) :=
    hlinks.mem_stale ht hplain
  have hplaces (file : OutputFile) (hfile : file ∈ planOf files) :
      t'.locate true (file.fullPath base) = .taken (t.place (file.fullPath base)) := by
    obtain ⟨key, hkey⟩ := hwrote.exists_locate hfile
    rw [hkey, (hold.linkFree hlinks).eq_place (.inl hkey), hold.place_eq]
  obtain ⟨hwritten, hunchanged, hperm⟩ := paths_of_writeEach hwrite
  refine ⟨?_, fun key => ?_, ?_, hwritten, hunchanged, hperm, ?_⟩
  · rw [file?_of_writeEach hwrite hplaces]
    refine overwrite_congr fun key hkey => ?_
    rw [hlinks.file?_of_stale hdelete]
    exact if_congr ((hstale key).trans (and_iff_left hkey)) rfl rfl
  · rw [hdeleted]
    exact hstale key
  · rw [hdeleted]
    exact (ht.nodup_generated base).sublist (List.filter_sublist.map _)
  · intro before file after hsplit
    have hnodup := nodup_path_planOf files
    rw [hsplit] at hwrite hnodup
    obtain ⟨paths, t₁, hbefore, hiff⟩ := reached_of_writeEach hwrite hnodup
    exact ⟨paths, t₀, t₁, hdelete, hbefore, hiff⟩

end Places

/-! ### An output folder with all kinds of files -/

/-- An output folder with a generated file that is planned, a file that somebody has written by hand
and a generated file that is stale. -/
def mixed : Tree :=
  ⟨[], [(["out"], .folder),
    (["out", "a.ts"], .file (.text "// contractgen: generated content, do not edit\n")),
    (["out", "mine.ts"], .file (.text "export type Mine = {};\n")),
    (["out", "old.ts"], .file (.text "// contractgen: generated content, do not edit\nold\n"))]⟩

/-- The files of a run, one of which is added twice. -/
def mixedFiles : List OutputFile :=
  [⟨"a.ts", ""⟩, ⟨"b.ts", "// contractgen: generated content, do not edit\nB\n"⟩,
    ⟨"a.ts", "// contractgen: generated content, do not edit\n"⟩]

/-- The output folder after the run. -/
def mixedAfter : Tree :=
  (mixed.erase ["out", "old.ts"]).put ["out", "b.ts"]
    (.file (.text "// contractgen: generated content, do not edit\nB\n"))

/-- The output folder is well formed. -/
theorem mixed_wellFormed : mixed.WellFormed :=
  ⟨by decide +kernel, by decide +kernel, by decide +kernel⟩

/-- There are no links in it. -/
theorem mixed_linkFree : mixed.LinkFree := by
  intro key target hentry
  have hentries : ∀ entry ∈ mixed.entries, ∀ target, entry.2 ≠ .link target := by
    simp [mixed]
  have hkey : key ≠ [] := by
    rintro rfl
    cases hentry
  exact hentries _ (mem_entries hkey hentry) target rfl

/-- The run writes the new file, leaves the planned one as it is and deletes the stale one. -/
theorem runs_mixed :
    Runs (writeAll ⟨"out"⟩ (OutputSet.empty.addAll mixedFiles)) mixed
      ⟨["b.ts"], ["a.ts"], [⟨"out/old.ts"⟩]⟩ mixedAfter := by
  have hfolder : mixed.locate true ⟨"out"⟩ = .taken ["out"] :=
    locate_eq_of_walkWithin 4 (by decide +kernel)
  have hold : mixed.locate false ⟨"out/old.ts"⟩ = .taken ["out", "old.ts"] :=
    locate_eq_of_walkWithin 4 (by decide +kernel)
  have hstale : stale mixed ⟨"out"⟩ (OutputSet.empty.addAll mixedFiles) = [⟨"out/old.ts"⟩] := by
    rw [stale, generated, reachable, hfolder]
    decide +kernel
  have hfiles : (OutputSet.empty.addAll mixedFiles).files =
      [⟨"a.ts", "// contractgen: generated content, do not edit\n"⟩,
        ⟨"b.ts", "// contractgen: generated content, do not edit\nB\n"⟩] := by decide +kernel
  have hdeleted : (mixed.erase ["out", "old.ts"]).locate true ⟨"out"⟩ = .taken ["out"] :=
    locate_eq_of_walkWithin 4 (by decide +kernel)
  have ha : (mixed.erase ["out", "old.ts"]).locate true ⟨"out/a.ts"⟩ = .taken ["out", "a.ts"] :=
    locate_eq_of_walkWithin 4 (by decide +kernel)
  have hb : (mixed.erase ["out", "old.ts"]).locate true ⟨"out/b.ts"⟩ =
      .free ["out", "b.ts"] false := locate_eq_of_walkWithin 4 (by decide +kernel)
  refine runs_writeAll.mpr ⟨mixed.erase ["out", "old.ts"], ?_, ?_, hstale.symm⟩
  · rw [hstale]
    refine runs_bind.mpr ⟨(), mixed.erase ["out", "old.ts"], ?_, runs_pure.mpr ⟨rfl, rfl⟩⟩
    refine runs_bind.mpr ⟨(), mixed.erase ["out", "old.ts"], runs_change.mpr ?_, ?_⟩
    · rw [withoutFile?, hold]
      rfl
    · have hfolders : foldersBelow ⟨"out"⟩ ⟨"out/old.ts"⟩ = [] := by decide +kernel
      rw [hfolders]
      exact runs_pure.mpr ⟨rfl, rfl⟩
  · rw [hfiles]
    refine runs_writeEach_cons.mpr
      ⟨false, mixed.erase ["out", "old.ts"], (["b.ts"], []), ?_, ?_, rfl⟩
    · have hfull : OutputFile.fullPath ⟨"a.ts", "// contractgen: generated content, do not edit\n"⟩
          ⟨"out"⟩ = ⟨"out/a.ts"⟩ := by decide +kernel
      rw [runs_writeIfChanged, hfull]
      exact .inl ⟨rfl, text?_eq ha (by decide +kernel), rfl⟩
    · refine runs_writeEach_cons.mpr
        ⟨true, mixedAfter, ([], []), ?_, runs_writeEach_nil.mpr ⟨rfl, rfl⟩, rfl⟩
      have hfull : OutputFile.fullPath
          ⟨"b.ts", "// contractgen: generated content, do not edit\nB\n"⟩ ⟨"out"⟩ =
            ⟨"out/b.ts"⟩ := by decide +kernel
      rw [runs_writeIfChanged, hfull]
      refine .inr ⟨rfl, ?_, runs_write_of_isFolder ⟨"out"⟩ (by decide +kernel)
        (fun _ => by decide +kernel) ?_ ?_⟩
      · simp [text?, get?, hb]
      · have hfolders : (⟨"out"⟩ :: Path.ancestors ⟨"out"⟩) = [(⟨"out"⟩ : Path), ⟨""⟩] := by
          decide +kernel
        simpa [hfolders] using isFolder_of_locate hdeleted rfl
      · rw [withFile?, hb]
        rfl

/-- The general theorem at this run. -/
theorem rewrites_of_writeAll_mixed :
    Rewrites ⟨"out"⟩ (planOf mixedFiles) mixed ⟨["b.ts"], ["a.ts"], [⟨"out/old.ts"⟩]⟩ mixedAfter :=
  rewrites_of_writeAll mixed_wellFormed mixed_linkFree (by decide +kernel) runs_mixed

end Declgen.Files
