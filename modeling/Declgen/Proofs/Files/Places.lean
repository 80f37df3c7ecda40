import Declgen.Proofs.Files.Paths
import Declgen.Proofs.Files.Writing

/-!
# Where files are written

Below a base that holds no links, a full path leads to the entry with the names in the path of the
file. So files are written to different places if and only if their paths have different names.
-/

namespace Declgen.Files

open Files.Tree

/-- The paths of the files have different names. -/
def Apart (files : List OutputFile) : Prop :=
  files.Pairwise fun file file' => file.names ≠ file'.names

/-- No link stands inside the folder that a base leads to. -/
def Tree.Linkless (t : Tree) (base : Path) : Prop :=
  ∀ folder, t.siteAt (t.start base) = .taken folder →
    ∀ below target, (below, .link target) ∉ t.inside folder

variable {t : Tree} {base : Path} {key : Key}

/-- Without links inside, nothing below the folder is a link. -/
theorem Tree.Linkless.entry?_ne (h : t.Linkless base) {folder : Key}
    (hfolder : t.siteAt (t.start base) = .taken folder) {below : Key} (target : String)
    (hbelow : below ≠ []) : t.entry? (folder ++ below) ≠ some (.link target) := by
  intro hentry
  have hmem := mem_entries (by simp [hbelow]) hentry
  refine h folder hfolder below target (List.mem_filterMap.mpr ⟨_, hmem, ?_⟩)
  have hlength : folder.length < (folder ++ below).length := by
    have := List.length_pos_iff.mpr hbelow
    rw [List.length_append]
    omega
  simp [hbelow]

/-- A way along a base and then along names goes through the place to which the base leads, if it
ends behind it or in a folder. -/
theorem Tree.exists_folder_of_way {names : List String} {links' : Nat}
    (hway : Way t ⟨linkLimit, (t.start base).here, base.lead ++ names⟩ ⟨links', key, []⟩)
    (hend : names ≠ [] ∨ t.entry? key = some .folder) :
    ∃ links folder, t.siteAt (t.start base) = .taken folder ∧
      Way t ⟨links, folder, names⟩ ⟨links', key, []⟩ := by
  obtain ⟨links, folder, hbase, hnames⟩ := hway.exists_of_append
  refine ⟨links, folder, siteAt_eq_taken.mpr ?_, hnames⟩
  rcases Path.segments_cases base with hsegments | hsegments
  · rw [start, hsegments]
    exact ⟨links, hbase⟩
  · -- The base leads to a folder, so a slash at its end is idle.
    have hfolder : t.entry? folder = some .folder := by
      rcases Relation.ReflTransGen.cases_head hnames with heq | ⟨q, hstep, -⟩
      · obtain ⟨-, rfl, rfl⟩ := Position.mk.inj heq
        exact hend.resolve_left (by simp)
      · cases hstep <;> assumption
    rw [start, hsegments]
    exact ⟨links, (hbase.append [""]).tail (.stay hfolder (by decide))⟩

/-- A full path leads through its base. -/
theorem OutputFile.Plain.exists_folder {file : OutputFile} (h : file.Plain)
    (hlocate : t.locate true (file.fullPath base) = .taken key) :
    ∃ links links' folder, t.siteAt (t.start base) = .taken folder ∧
      Way t ⟨links, folder, file.names⟩ ⟨links', key, []⟩ := by
  rw [locate_eq (usable_of_taken hlocate), start, h.segments_fullPath,
    h.isAbsolute_fullPath] at hlocate
  obtain ⟨links', hway⟩ := siteAt_eq_taken.mp hlocate
  obtain ⟨links, folder, hfolder, hnames⟩ := exists_folder_of_way hway (.inl h.names_ne_nil)
  exact ⟨links, links', folder, hfolder, hnames⟩

/-- Below a base without links, a full path leads to the entry with its names. -/
theorem OutputFile.Plain.locate_eq {file : OutputFile} (h : file.Plain) (hbase : t.Linkless base)
    (hlocate : t.locate true (file.fullPath base) = .taken key) :
    ∃ folder, t.siteAt (t.start base) = .taken folder ∧ key = folder ++ file.names := by
  obtain ⟨links, links', folder, hfolder, hway⟩ := h.exists_folder hlocate
  have hnames : file.names.filter (fun name => !Path.isIdle name) = file.names :=
    List.filter_eq_self.mpr fun name hname => by
      simp [Path.isIdle, (OutputFile.mem_names hname).1, (h.stays name hname).1]
  have hkey := hway.eq_of_upless (fun below target hbelow => hbase.entry?_ne hfolder target hbelow)
    fun hup => (h.stays _ hup).2 rfl
  exact ⟨folder, hfolder, hnames ▸ hkey⟩

/-- After a run has written files whose paths have different names, each of them holds its text,
provided that there is no link inside the output folder. -/
theorem Disk.text?_of_writeAll {files : List OutputFile} {t' : Tree} {report : WriteReport}
    (hplain : ∀ file ∈ files, ∀ file' ∈ files, file ≠ file' → file.Plain) (hapart : Apart files)
    (hwrite : Runs (writeAll base (OutputSet.empty.addAll files)) t report t')
    (hbase : t'.Linkless base) {file : OutputFile} (hfile : file ∈ files) :
    t'.text? (file.fullPath base) = some file.content := by
  have hset : (OutputSet.empty.addAll files).files = files := by
    refine OutputSet.files_addAll ?_
    rw [List.Nodup, List.pairwise_map]
    exact hapart.imp fun hne heq => hne (by rw [OutputFile.names, OutputFile.names, heq])
  obtain ⟨t₁, hwrote⟩ := exists_wroteAll_of_writeAll hwrite
  rw [hset] at hwrote
  refine hwrote.text?_eq (hapart.imp_of_mem fun {file file'} hmem hmem' hne heq => hne ?_) hfile
  obtain ⟨key, hkey⟩ := hwrote.exists_locate hmem
  have hkey' := heq.symm.trans hkey
  have hdiffer : file ≠ file' := fun heq => hne (congrArg OutputFile.names heq)
  obtain ⟨folder, hfolder, rfl⟩ := (hplain file hmem file' hmem' hdiffer).locate_eq hbase hkey
  obtain ⟨folder', hfolder', hnames⟩ :=
    (hplain file' hmem' file hmem hdiffer.symm).locate_eq hbase hkey'
  cases hfolder.symm.trans hfolder'
  exact List.append_cancel_left hnames

end Declgen.Files
