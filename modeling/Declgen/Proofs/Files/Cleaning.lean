import Declgen.Proofs.Files.Pruning
import Declgen.Proofs.Files.Rewriting

/-!
# Cleaning a folder

A dry run tells what cleaning will delete: the files below the base that have the extension and the
marker line. Cleaning deletes these and leaves all other files as they are. Of the folders below the
base, those go that hold such files and otherwise nothing but folders that do, so this depends on
the tree alone and not on the order of the deletions. Afterwards nothing is left to clean.
-/

namespace Declgen.Files

open Disk Files.Tree

/-! ### What is listed -/

/-- The folder does not matter for whether a file in it is a generated one. -/
theorem isMarked_append {names : List String} (hne : names ≠ []) (key : Key)
    (held : Option Content) : isMarked (key ++ names) held = isMarked names held := by
  rw [isMarked.eq_def, isMarked.eq_def, List.getLast?_append_of_ne_nil key hne]

namespace Tree

variable {t t' : Tree} {base p : Path} {root key : Key} {names : List String}

/-- Whether a file inside a folder has the extension and the marker line. -/
def isMarkedBelow (t : Tree) (root key : Key) : Bool :=
  root.isPrefixOf key && isMarked key (t.file? key)

/-- A marked file inside a folder has names below it and holds a text. -/
theorem exists_of_isMarkedBelow (hroot : t.entry? root = some .folder)
    (h : t.isMarkedBelow root key = true) :
    ∃ names content, names ≠ [] ∧ key = root ++ names ∧
      t.entry? key = some (.file (.text content)) := by
  rw [isMarkedBelow, Bool.and_eq_true, List.isPrefixOf_iff_prefix] at h
  obtain ⟨⟨names, rfl⟩, hmarked⟩ := h
  obtain ⟨content, hfile⟩ := exists_of_isMarked hmarked
  rw [file?_eq_some] at hfile
  refine ⟨names, content, ?_, rfl, hfile⟩
  rintro rfl
  rw [List.append_nil] at hfile
  cases hroot.symm.trans hfile

/-- The names of the files inside a folder that have the extension and the marker line. -/
def markedNames (t : Tree) (root : Key) : List (List String) :=
  ((t.inside root).map (·.1)).filter fun names => t.isMarkedBelow root (root ++ names)

/-- The names that are listed are those of the marked files. -/
theorem WellFormed.mem_markedNames (h : t.WellFormed) (hroot : t.entry? root = some .folder) :
    names ∈ t.markedNames root ↔ t.isMarkedBelow root (root ++ names) = true := by
  rw [markedNames, List.mem_filter, and_iff_right_iff_imp]
  intro hmarked
  obtain ⟨names', content, hne, heq, hentry⟩ := exists_of_isMarkedBelow hroot hmarked
  rw [List.append_cancel_left_eq] at heq
  subst heq
  exact List.mem_map.mpr ⟨_, h.mem_inside.mpr ⟨hne, hentry⟩, rfl⟩

/-- The names that are listed lead to files. -/
theorem WellFormed.exists_of_mem_markedNames (h : t.WellFormed)
    (hroot : t.entry? root = some .folder) (hnames : names ∈ t.markedNames root) :
    names ≠ [] ∧ ∃ content, t.entry? (root ++ names) = some (.file content) := by
  obtain ⟨names', content, hne, heq, hentry⟩ :=
    exists_of_isMarkedBelow hroot ((h.mem_markedNames hroot).mp hnames)
  rw [List.append_cancel_left_eq] at heq
  exact ⟨heq ▸ hne, _, hentry⟩

/-- The generated files of a base that leads to a folder are those inside the folder. -/
theorem WellFormed.generated_eq (h : t.WellFormed) (hbase : t.locate true base = .taken root)
    (hroot : t.entry? root = some .folder) :
    t.generated base = (t.markedNames root).map base.below := by
  have hreach : t.reachable base =
      (t.inside root).map fun entry => (base.below entry.1, entry.2) := by
    rw [reachable, hbase]
    simp only [hroot]
    rfl
  have hfilter : (t.inside root).filter
        ((fun entry : Path × Entry => isGeneratedFile entry.1 entry.2) ∘
          fun entry => (base.below entry.1, entry.2)) =
      (t.inside root).filter
        ((fun names => t.isMarkedBelow root (root ++ names)) ∘ fun entry => entry.1) := by
    refine List.filter_congr fun entry hentry => ?_
    obtain ⟨names, e⟩ := entry
    obtain ⟨hne, hentry⟩ := h.mem_inside.mp hentry
    have hmarked : t.isMarkedBelow root (root ++ names) =
        isMarked names (t.file? (root ++ names)) := by
      simp [isMarkedBelow, isMarked_append hne]
    rw [Function.comp_apply, Function.comp_apply, hmarked, file?, hentry]
    cases e with
    | file content => exact Path.isGeneratedFile_below base (h.isName_below hentry) hne content
    | link target => rfl
    | folder => rfl
  rw [generated, hreach, List.filter_map, List.map_map, hfilter, markedNames, List.filter_map,
    List.map_map]
  rfl

/-! ### Runs that do not fail -/

/-- In a well-formed tree, a base leads to a folder without steps up on the way, so that it leads
there no matter what is deleted inside the folder. -/
structure Leads (t : Tree) (base : Path) (root : Key) : Prop where
  /-- The tree is well formed. -/
  wellFormed : t.WellFormed
  /-- There are no steps up. -/
  upless : t.Upless base
  /-- The base leads to the place. -/
  base : t.locate true base = .taken root
  /-- The place is a folder. -/
  folder : t.entry? root = some .folder

/-- A base that leads to a folder still does so when the links have not changed and the folder is
there. -/
theorem Leads.of_sameLinks (h : t.Leads base root) (hlinks : SameLinks t t') (ht' : t'.WellFormed)
    (hfolder : t'.entry? root = some .folder) : t'.Leads base root := by
  have hup : t'.Upless base := ⟨h.upless.path, fun key target hlink =>
    h.upless.target key target ((hlinks.link key target).mp hlink)⟩
  exact ⟨ht', hup, hlinks.symm.locate ht' hup h.base hfolder, hfolder⟩

/-- An entry inside the folder can be taken out. -/
theorem Leads.erase (h : t.Leads base root) (hne : names ≠ [])
    (hlink : ∀ target, t.entry? (root ++ names) ≠ some (.link target))
    (ht' : (t.erase (root ++ names)).WellFormed) : (t.erase (root ++ names)).Leads base root := by
  have hkey : root ++ names ≠ [] := by simp [hne]
  refine h.of_sameLinks (.erase hkey hlink) ht' ?_
  rw [t.entry?_erase hkey, if_neg (by simp [hne]), h.folder]

/-- A file that is left among the swept ones has not been deleted. -/
theorem Swept.entry?_eq {S : Key → Prop} {e : Entry} (h : Swept root S t t')
    (hentry : t.entry? key = some e) (hfolder : e ≠ .folder) (hS : ¬S key) :
    t'.entry? key = some e := by
  cases hleft : t'.entry? key with
  | none =>
    rcases h.lost key e hentry hleft with hfile | ⟨rfl, -⟩
    · exact absurd hfile hS
    · exact absurd rfl hfolder
  | some e' => exact (h.smaller.entry key e' hleft).symm.trans hentry

/-- The folder itself is left. -/
theorem Swept.folder {S : Key → Prop} (h : Swept root S t t') (hroot : t.entry? root = some .folder)
    (hS : ¬S root) : t'.entry? root = some .folder := by
  cases hleft : t'.entry? root with
  | none =>
    rcases h.lost root _ hroot hleft with hfile | ⟨-, ⟨names, hne, heq⟩, -⟩
    · exact absurd hfile hS
    · exact absurd (List.append_right_eq_self.mp heq.symm) hne
  | some e => exact (h.smaller.entry root e hleft).symm.trans hroot

/-- The base still leads to the folder after files inside it have been deleted. -/
theorem Swept.leads {S : Key → Prop} (h : Swept root S t t')
    (hS : ∀ key, S key → ∃ content, t.entry? key = some (.file content))
    (hleads : t.Leads base root) : t'.Leads base root := by
  have hkept {key : Key} {e : Entry} (hentry : t.entry? key = some e) (he : ∀ c, e ≠ .file c) :
      ¬S key := by
    intro hfile
    obtain ⟨content, hfile⟩ := hS key hfile
    exact he content (Option.some.inj (hentry.symm.trans hfile))
  refine hleads.of_sameLinks ⟨h.smaller.home.symm, fun key target => ⟨h.smaller.entry key _,
    fun hlink => h.entry?_eq hlink nofun (hkept hlink fun _ => nofun)⟩⟩ h.wellFormed ?_
  exact h.folder hleads.folder (hkept hleads.folder fun _ => nofun)

end Tree

namespace Disk

variable {t t' : Tree} {base : Path} {root : Key} {names : List String}

/-- The folders above an entry inside the folder can be pruned. -/
theorem exists_runs_prune {last : String} (h : t.Leads base root) (hlast : IsName last)
    (hfolder : t.entry? (root ++ names) = some .folder)
    (husable : (base.below (names ++ [last])).isUsable = true) :
    ∃ t', Runs (prune (foldersBelow base (base.below (names ++ [last])))) t () t' := by
  have htext : base.text ≠ "" := Path.text_ne_empty (usable_of_taken h.base)
  induction names using List.reverseRecOn generalizing t last with
  | nil =>
    rw [List.nil_append, foldersBelow_single hlast]
    exact ⟨t, runs_pure.mpr ⟨rfl, rfl⟩⟩
  | append_singleton names name ih =>
    have hne : names ++ [name] ≠ [] := by simp
    have hkey : root ++ (names ++ [name]) ≠ [] := by simp
    have hnames : ∀ name' ∈ names ++ [name], IsName name' := h.wellFormed.isName_below hfolder
    have husable' := Path.isUsable_of_below hne hnames hlast husable
    have hlocate {follow : Bool} : t.locate follow (base.below (names ++ [name])) =
        .taken (root ++ (names ++ [name])) :=
      h.wellFormed.locate_below h.base hne hfolder (fun _ => nofun) husable'
    rw [foldersBelow_concat htext hne (by simpa [or_imp, forall_and, hlast] using hnames)]
    cases hempty : (t.inside (root ++ (names ++ [name]))).isEmpty with
    | false =>
      exact ⟨t, runs_prune_cons.mpr
        (.inl ⟨isEmptyFolder?_eq_some.mpr ⟨_, hlocate, hfolder, hempty⟩, rfl⟩)⟩
    | true =>
      have hremove := withoutFolder?_eq_some.mpr
        ⟨_, hlocate, hkey, hfolder, List.isEmpty_iff.mp hempty, rfl⟩
      have hwell := closed_wellFormed.withoutFolder _ _ _ h.wellFormed hremove
      have habove : t.entry? (root ++ names) = some .folder := h.wellFormed.folder_above hfolder
      obtain ⟨t', hrest⟩ := ih (h.erase hne (by simp [hfolder]) hwell)
        (hnames name (by simp)) (by rw [t.entry?_erase hkey, if_neg (by simp), habove]) husable'
      exact ⟨t', runs_prune_cons.mpr
        (.inr ⟨isEmptyFolder?_eq_some.mpr ⟨_, hlocate, hfolder, hempty⟩, _, hremove, hrest⟩)⟩

/-- A file inside the folder can be deleted. -/
theorem exists_runs_deleteGenerated {content : Content} (h : t.Leads base root) (hne : names ≠ [])
    (hfile : t.entry? (root ++ names) = some (.file content))
    (husable : (base.below names).isUsable = true) :
    ∃ t', Runs (deleteGenerated base (base.below names)) t () t' := by
  have hlocate : t.locate false (base.below names) = .taken (root ++ names) :=
    h.wellFormed.locate_below h.base hne hfile (fun _ => nofun) husable
  have hdelete : t.withoutFile? (base.below names) = some (t.erase (root ++ names)) := by
    rw [withoutFile?, hlocate]
    simp [hfile]
  obtain ⟨above, last, rfl⟩ := (List.eq_nil_or_concat' names).resolve_left hne
  have hleads := h.erase hne (by simp [hfile])
    (closed_wellFormed.withoutFile _ _ _ h.wellFormed hdelete)
  have habove : t.entry? (root ++ above) = some .folder := h.wellFormed.folder_above hfile
  obtain ⟨t', hprune⟩ := exists_runs_prune hleads
    (h.wellFormed.isName_below hfile last (by simp))
    (by rw [t.entry?_erase (by simp), if_neg (by simp), habove]) husable
  exact ⟨t', runs_bind.mpr ⟨(), _, runs_change.mpr hdelete, hprune⟩⟩

/-- Files inside the folder can be deleted one after another. -/
theorem exists_runs_deletions {t₁ : Tree} {S : Key → Prop} {files : List (List String)}
    (h : t.Leads base root) (hswept : Swept root S t t₁)
    (hS : ∀ key, S key → ∃ content, t.entry? key = some (.file content))
    (hfiles : ∀ names ∈ files, names ≠ [] ∧ ¬S (root ++ names) ∧
      (base.below names).isUsable = true ∧
      ∃ content, t.entry? (root ++ names) = some (.file content))
    (hnodup : files.Nodup) :
    ∃ t', Runs ((files.map base.below).forM (deleteGenerated base)) t₁ () t' := by
  induction files generalizing S t₁ with
  | nil => exact ⟨t₁, runs_pure.mpr ⟨rfl, rfl⟩⟩
  | cons names files ih =>
    obtain ⟨hnotin, hnodup⟩ := List.nodup_cons.mp hnodup
    obtain ⟨hne, hnot, husable, content, hfile⟩ := hfiles names List.mem_cons_self
    obtain ⟨t₂, hfirst⟩ := exists_runs_deleteGenerated (hswept.leads hS h) hne
      (hswept.entry?_eq hfile nofun hnot) husable
    have hswept' := hswept.deleteGenerated h.wellFormed h.base hne hfile hfirst
    have hS' (key : Key) (hkey : S key ∨ key = root ++ names) :
        ∃ content, t.entry? key = some (.file content) :=
      hkey.elim (hS key) fun heq => ⟨content, heq ▸ hfile⟩
    obtain ⟨t', hrest⟩ := ih hswept' hS' (fun names' hnames' => by
      obtain ⟨hne', hnot', hfile'⟩ := hfiles names' (List.mem_cons_of_mem _ hnames')
      refine ⟨hne', not_or.mpr ⟨hnot', fun heq => hnotin ?_⟩, hfile'⟩
      exact List.append_cancel_left heq ▸ hnames') hnodup
    exact ⟨t', runs_bind.mpr ⟨(), t₂, hfirst, hrest⟩⟩

/-- A dry run lists the generated files and does nothing else. -/
theorem runs_clean_dry {files : List Path} :
    Runs (clean base true) t files t' ↔ files = t.generated base ∧ t' = t := by
  constructor
  · intro h
    obtain ⟨_, _, hget, hrun⟩ := runs_bind.mp h
    obtain ⟨rfl, rfl⟩ := runs_get.mp hget
    exact runs_pure.mp hrun
  · rintro ⟨rfl, rfl⟩
    exact runs_bind.mpr ⟨_, _, runs_get.mpr ⟨rfl, rfl⟩, runs_pure.mpr ⟨rfl, rfl⟩⟩

end Disk

/-! ### Cleaning -/

/-- What is left after the folder to which a base leads has been cleaned. It depends on nothing but
the tree. -/
structure Cleaned (base : Path) (root : Key) (t t' : Tree) : Prop where
  /-- Nothing is new, and what is left is what it was. -/
  smaller : Extends t' t
  /-- The files inside the folder with the extension and the marker line are deleted, and every
  other file keeps its content. -/
  files : ∀ key, t'.file? key = if t.isMarkedBelow root key then none else t.file? key
  /-- Besides these files, exactly those folders inside the folder are gone that held such a file
  and otherwise nothing but folders that held one themselves. -/
  gone : ∀ key e, t.entry? key = some e → (t'.entry? key = none ↔ t.isMarkedBelow root key = true ∨
    (∃ names, names ≠ [] ∧ key = root ++ names) ∧ t.Emptied (t.isMarkedBelow root · = true) key)
  /-- There is nothing to clean any more. -/
  generated : t'.generated base = []
  /-- The folder itself is still there. -/
  folder : t'.entry? root = some .folder
  /-- The base leads to it, unless there are steps up on the way, which may go through a folder that
  is gone. -/
  base : t.Upless base → t'.locate true base = .taken root

/-- A dry run and a real run of cleaning agree. -/
structure CleanAgrees (base : Path) (root : Key) (t : Tree) : Prop where
  /-- A dry run changes nothing and lists the generated files. -/
  dry : ∀ files t', Runs (clean base true) t files t' ↔ files = t.generated base ∧ t' = t
  /-- What is listed are the files inside the folder with the extension and the marker line. -/
  listed : ∀ p, p ∈ t.generated base ↔
    ∃ names, p = base.below names ∧ t.isMarkedBelow root (root ++ names) = true
  /-- Each of them is listed once. -/
  nodup : (t.generated base).Nodup
  /-- A run that succeeds returns the same list and deletes what it says. -/
  real : ∀ files t', Runs (clean base false) t files t' →
    files = t.generated base ∧ Cleaned base root t t'
  /-- A run succeeds if there are no steps up on the way to the folder and no path is too long. -/
  succeeds : t.Upless base → (∀ p ∈ t.generated base, p.isUsable = true) →
    ∃ t', Runs (clean base false) t (t.generated base) t'

namespace Tree

variable {t t' : Tree} {base : Path} {root : Key}

/-- The generated files are swept when a folder is cleaned. -/
theorem WellFormed.swept_of_clean (h : t.WellFormed) (hbase : t.locate true base = .taken root)
    (hroot : t.entry? root = some .folder)
    (hrun : Runs ((t.generated base).forM (deleteGenerated base)) t () t') :
    Swept root (t.isMarkedBelow root · = true) t t' := by
  have hnames (key : Key) : (False ∨ ∃ names ∈ t.markedNames root, key = root ++ names) =
      (t.isMarkedBelow root key = true) := by
    rw [false_or]
    refine propext ⟨?_, fun hmarked => ?_⟩
    · rintro ⟨names, hnames, rfl⟩
      exact (h.mem_markedNames hroot).mp hnames
    · obtain ⟨names, -, -, rfl, -⟩ := exists_of_isMarkedBelow hroot hmarked
      exact ⟨names, (h.mem_markedNames hroot).mpr hmarked, rfl⟩
  rw [h.generated_eq hbase hroot] at hrun
  refine funext hnames ▸ (Swept.refl h).deletions h hbase (fun names hnames => ?_) hrun
  exact h.exists_of_mem_markedNames hroot hnames

/-- After the marked files have been swept, the folder is clean. -/
theorem Swept.cleaned (h : Swept root (t.isMarkedBelow root · = true) t t') (ht : t.WellFormed)
    (hbase : t.locate true base = .taken root) (hroot : t.entry? root = some .folder) :
    Cleaned base root t t' := by
  have hmarked (key : Key) (hkey : t.isMarkedBelow root key = true) :
      ∃ content, t.entry? key = some (.file content) := by
    obtain ⟨-, content, -, -, hentry⟩ := exists_of_isMarkedBelow hroot hkey
    exact ⟨_, hentry⟩
  have hfolder : t'.entry? root = some .folder := h.folder hroot fun hkey => by
    obtain ⟨content, hentry⟩ := hmarked root hkey
    cases hroot.symm.trans hentry
  have hfiles (key : Key) :
      t'.file? key = if t.isMarkedBelow root key then none else t.file? key := by
    split
    · rename_i hkey
      rw [file?, h.gone key hkey]
    · rename_i hkey
      refine Option.ext fun content => ?_
      rw [file?_eq_some, file?_eq_some]
      exact ⟨h.smaller.entry key _, fun hentry => h.entry?_eq hentry (by simp) hkey⟩
  have hnone (key : Key) : t'.isMarkedBelow root key = false := by
    rw [isMarkedBelow, hfiles]
    split
    · exact Bool.and_false _
    · rename_i hkey
      rw [isMarkedBelow] at hkey
      exact Bool.eq_false_iff.mpr hkey
  refine ⟨h.smaller, hfiles, fun key e hentry => h.gone_iff hentry, ?_, hfolder,
    fun hup => (h.leads hmarked ⟨ht, hup, hbase, hroot⟩).base⟩
  cases hlocate : t'.locate true base with
  | taken key =>
    obtain rfl : key = root := Site.taken.inj ((h.smaller.locate hlocate).symm.trans hbase)
    rw [h.wellFormed.generated_eq hlocate hfolder, markedNames]
    simp [hnone]
  | free key slash => simp [Tree.generated, reachable, hlocate]
  | nowhere => simp [Tree.generated, reachable, hlocate]

end Tree

/-- Cleaning does what a dry run says. -/
theorem clean_agrees {t : Tree} {base : Path} {root : Key} (ht : t.WellFormed)
    (hbase : t.locate true base = .taken root) (hroot : t.entry? root = some .folder) :
    CleanAgrees base root t := by
  have heq := ht.generated_eq hbase hroot
  have hnodup : (t.generated base).Nodup := .of_map _ (ht.nodup_generated base)
  refine ⟨fun _ _ => runs_clean_dry, fun p => ?_, hnodup, fun files t' hrun => ?_,
    fun hup husable => ?_⟩
  · simp only [heq, List.mem_map, ht.mem_markedNames hroot, eq_comm, and_comm]
  · obtain ⟨hdelete, hfiles⟩ := runs_clean.mp hrun
    exact ⟨hfiles, (ht.swept_of_clean hbase hroot hdelete).cleaned ht hbase hroot⟩
  · rw [heq] at husable hnodup
    have hnames (names : List String) (h : names ∈ t.markedNames root) :
        names ≠ [] ∧ ¬False ∧ (base.below names).isUsable = true ∧
          ∃ content, t.entry? (root ++ names) = some (.file content) := by
      obtain ⟨hne, hfile⟩ := ht.exists_of_mem_markedNames hroot h
      exact ⟨hne, id, husable _ (List.mem_map_of_mem h), hfile⟩
    obtain ⟨t', hrun⟩ := exists_runs_deletions ⟨ht, hup, hbase, hroot⟩ (Swept.refl ht)
      (fun _ hS => hS.elim) hnames hnodup.of_map
    exact ⟨t', runs_clean.mpr ⟨heq ▸ hrun, rfl⟩⟩

/-- An output folder with two folders that hold generated files, one of which holds an empty folder,
too. -/
def nested : Tree :=
  ⟨[], [(["out"], .folder), (["out", "a"], .folder), (["out", "a", "b"], .folder),
    (["out", "a", "b", "x.ts"], .file (.text "// contractgen: generated content, do not edit\n")),
    (["out", "a", "y.ts"], .file (.text "// contractgen: generated content, do not edit\n")),
    (["out", "d"], .folder), (["out", "d", "e"], .folder),
    (["out", "d", "z.ts"], .file (.text "// contractgen: generated content, do not edit\n")),
    (["out", "mine.ts"], .file (.text "export type Mine = {};\n"))]⟩

/-- The tree with the two folders is well formed. -/
theorem nested_wellFormed : nested.WellFormed :=
  ⟨by decide +kernel, by decide +kernel, by decide +kernel⟩

/-- An entry of the output folder is one of those written down. -/
theorem mem_entries_nested {key : Key} {e : Entry} (h : nested.entry? ("out" :: key) = some e) :
    ("out" :: key, e) ∈ nested.entries := mem_entries (List.cons_ne_nil _ _) h

/-- One of the folders holds generated files and a folder that holds one. -/
theorem nested_emptied :
    nested.Emptied (nested.isMarkedBelow ["out"] · = true) ["out", "a"] := by
  refine ⟨by decide +kernel, ⟨["y.ts"], by decide +kernel⟩, fun below e hne he => ?_⟩
  have hmem := mem_entries_nested he
  simp [nested, hne] at hmem
  rcases hmem with ⟨rfl, rfl⟩ | ⟨rfl, rfl⟩ | ⟨rfl, rfl⟩
  · exact .inr ⟨rfl, ["x.ts"], by decide +kernel⟩
  · exact .inl (by decide +kernel)
  · exact .inl (by decide +kernel)

/-- A folder with nothing but generated files in it and below is gone, while an empty folder and the
one that holds it are left. -/
theorem clean_agrees_nested :
    nested.WellFormed ∧ nested.locate true ⟨"out"⟩ = .taken ["out"] ∧
    nested.entry? ["out"] = some .folder ∧ CleanAgrees ⟨"out"⟩ ["out"] nested ∧
    ∃ t', Runs (clean ⟨"out"⟩ false) nested
      [⟨"out/a/b/x.ts"⟩, ⟨"out/a/y.ts"⟩, ⟨"out/d/z.ts"⟩] t' ∧
      t'.entry? ["out", "a"] = none ∧ t'.entry? ["out", "d", "e"] ≠ none := by
  have hbase : nested.locate true ⟨"out"⟩ = .taken ["out"] :=
    locate_eq_of_walkWithin 4 (by decide +kernel)
  have hroot : nested.entry? ["out"] = some .folder := by decide +kernel
  have hagrees := clean_agrees nested_wellFormed hbase hroot
  have hgenerated : nested.generated ⟨"out"⟩ =
      [⟨"out/a/b/x.ts"⟩, ⟨"out/a/y.ts"⟩, ⟨"out/d/z.ts"⟩] := by
    rw [Tree.generated, reachable, hbase]
    decide +kernel
  have hup : nested.Upless ⟨"out"⟩ := by
    refine ⟨by decide +kernel, fun key target hlink => ?_⟩
    have hmem := mem_entries (by rintro rfl; cases hlink) hlink
    simp [nested] at hmem
  obtain ⟨t', hrun⟩ := hagrees.succeeds hup (by rw [hgenerated]; decide +kernel)
  obtain ⟨-, hcleaned⟩ := hagrees.real _ _ hrun
  refine ⟨nested_wellFormed, hbase, hroot, hagrees, t', hgenerated ▸ hrun, ?_, fun hgone => ?_⟩
  · exact (hcleaned.gone _ .folder (by decide +kernel)).mpr (.inr ⟨⟨["a"], by simp, rfl⟩,
      nested_emptied⟩)
  · rcases (hcleaned.gone _ .folder (by decide +kernel)).mp hgone with hmarked | ⟨-, hemptied⟩
    · exact absurd hmarked (by decide +kernel)
    · obtain ⟨below, hmarked⟩ := hemptied.held
      obtain ⟨-, content, -, -, hentry⟩ := exists_of_isMarkedBelow hroot hmarked
      have hmem := mem_entries_nested hentry
      simp [nested] at hmem

end Declgen.Files
