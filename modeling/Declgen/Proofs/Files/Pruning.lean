import Declgen.Proofs.Files.Ancestors
import Declgen.Proofs.Files.SameLinks
import Mathlib.Algebra.Order.BigOperators.Group.List
import Mathlib.Algebra.Order.Group.Nat

/-!
# Removing the folders that become empty

After a file has been deleted, the folders above it are removed from the nearest one on, as long as
they are empty. So once some files below a folder have been deleted one after another, the folders
that are gone with them are those that held such files and otherwise nothing but folders that did.
-/

namespace Declgen.Files

open Disk Files.Tree

namespace Tree

variable {t t' : Tree} {base : Path} {root key : Key} {names : List String}

/-- What is somewhere in a folder is in an entry that is right in it. -/
theorem WellFormed.exists_child (h : t.WellFormed) {e : Entry} (hne : names ≠ [])
    (hentry : t.entry? (key ++ names) = some e) :
    ∃ name e', t.entry? (key ++ [name]) = some e' := by
  obtain ⟨name, rest, rfl⟩ := List.exists_cons_of_ne_nil hne
  by_cases hrest : rest = []
  · subst hrest
    exact ⟨name, e, hentry⟩
  · rw [← List.singleton_append, ← List.append_assoc] at hentry
    exact ⟨name, _, h.folder_of_append hrest hentry⟩

/-- The folder with the first names of an entry is there. -/
theorem WellFormed.folder_above (h : t.WellFormed) {e : Entry} {name : String}
    (hentry : t.entry? (key ++ (names ++ [name])) = some e) :
    t.entry? (key ++ names) = some .folder := by
  rw [← List.append_assoc] at hentry
  exact h.folder hentry

/-- In a smaller tree, a path below a base leads to the entry with its names, if to any. -/
theorem WellFormed.eq_of_locate_below (ht : t.WellFormed) (hbase : t.locate true base = .taken root)
    {e : Entry} (hne : names ≠ []) (hentry : t.entry? (root ++ names) = some e)
    (hlink : ∀ target, e ≠ .link target) (hsmaller : Extends t' t) {follow : Bool}
    (hlocate : t'.locate follow (base.below names) = .taken key) : key = root ++ names :=
  Site.taken.inj ((hsmaller.locate hlocate).symm.trans
    (ht.locate_below hbase hne hentry hlink (usable_of_taken hlocate)))

/-- What pruning along some names below a root leaves of a tree. -/
structure Pruned (root : Key) (names : List String) (t t' : Tree) : Prop where
  /-- Nothing is new. -/
  smaller : Extends t' t
  /-- Nothing is gone but folders along the names. -/
  lost : ∀ key e, t.entry? key = some e → t'.entry? key = none →
    e = .folder ∧ ∃ above, above ≠ [] ∧ above <+: names ∧ key = root ++ above
  /-- The folders along the names that are left have something in them. -/
  filled : ∀ above, above ≠ [] → above <+: names → t'.entry? (root ++ above) = some .folder →
    ∃ name e, t'.entry? (root ++ above ++ [name]) = some e

end Tree

namespace Disk

variable {t t' : Tree} {folder : Path} {folders : List Path} {key : Key}

/-- Pruning stops at a folder with something in it, or removes the folder and goes on. -/
theorem runs_prune_cons :
    Runs (prune (folder :: folders)) t () t' ↔
      t.isEmptyFolder? folder = some false ∧ t' = t ∨
      t.isEmptyFolder? folder = some true ∧ ∃ t₁, t.withoutFolder? folder = some t₁ ∧
        Runs (prune folders) t₁ () t' := by
  rw [prune, runs_bind]
  constructor
  · rintro ⟨_, _, hget, hrun⟩
    obtain ⟨rfl, rfl⟩ := runs_get.mp hget
    split at hrun
    · exact absurd hrun runs_throw
    · obtain ⟨-, rfl⟩ := runs_pure.mp hrun
      exact .inl ⟨‹_›, rfl⟩
    · obtain ⟨_, t₁, hremove, hrest⟩ := runs_bind.mp hrun
      exact .inr ⟨‹_›, t₁, runs_change.mp hremove, hrest⟩
  · rintro (⟨hempty, rfl⟩ | ⟨hempty, t₁, hremove, hrest⟩)
    · refine ⟨_, _, runs_get.mpr ⟨rfl, rfl⟩, ?_⟩
      rw [hempty]
      exact runs_pure.mpr ⟨rfl, rfl⟩
    · refine ⟨_, _, runs_get.mpr ⟨rfl, rfl⟩, ?_⟩
      rw [hempty]
      exact runs_bind.mpr ⟨(), t₁, runs_change.mpr hremove, hrest⟩

/-- When a path is known to lead to a folder that is empty or not. -/
theorem isEmptyFolder?_eq_some {empty : Bool} :
    t.isEmptyFolder? folder = some empty ↔ ∃ key, t.locate true folder = .taken key ∧
      t.entry? key = some .folder ∧ (t.inside key).isEmpty = empty := by
  unfold isEmptyFolder?
  cases hlocate : t.locate true folder <;> simp

/-- What is removed above an entry below a base. -/
theorem pruned_of_runs {t t₁ t₂ : Tree} {base : Path} {root : Key} {names : List String}
    {last : String} {e : Entry} (ht : t.WellFormed) (hbase : t.locate true base = .taken root)
    (hentry : t.entry? (root ++ names ++ [last]) = some e) (ht₁ : t₁.WellFormed)
    (hsmaller : Extends t₁ t)
    (hrun : Runs (prune (foldersBelow base (base.below (names ++ [last])))) t₁ () t₂) :
    Pruned root names t₁ t₂ := by
  have htext : base.text ≠ "" := Path.text_ne_empty (usable_of_taken hbase)
  induction names using List.reverseRecOn generalizing t₁ last e with
  | nil =>
    rw [List.nil_append, foldersBelow_single (ht.isName hentry (by simp))] at hrun
    obtain ⟨-, rfl⟩ := runs_pure.mp hrun
    refine ⟨.refl _, fun key e he hnone => ?_, fun above hne habove => ?_⟩
    · cases he.symm.trans hnone
    · exact absurd (List.prefix_nil.mp habove) hne
  | append_singleton names name ih =>
    have hne : names ++ [name] ≠ [] := by simp
    have hnames : ∀ name' ∈ names ++ [name] ++ [last], IsName name' :=
      ht.isName_below (by rwa [← List.append_assoc])
    have hfolder : t.entry? (root ++ (names ++ [name])) = some .folder := ht.folder hentry
    rw [foldersBelow_concat htext hne hnames] at hrun
    rcases runs_prune_cons.mp hrun with ⟨hempty, rfl⟩ | ⟨-, t₁', hremove, hrest⟩
    · -- The nearest folder has something in it, and those above it have it.
      obtain ⟨key, hlocate, hkey, hinside⟩ := isEmptyFolder?_eq_some.mp hempty
      obtain rfl := ht.eq_of_locate_below hbase hne hfolder (fun _ => nofun) hsmaller hlocate
      refine ⟨.refl _, fun key e he hnone => ?_, fun above habove hprefix _ => ?_⟩
      · cases he.symm.trans hnone
      · obtain ⟨below, hbelow⟩ := hprefix
        rw [← hbelow, ← List.append_assoc] at hkey hinside
        by_cases hlast : below = []
        · rw [hlast, List.append_nil] at hinside
          obtain ⟨⟨inner, e'⟩, hmem⟩ := List.exists_mem_of_ne_nil _ (by simpa using hinside)
          obtain ⟨hinner, he'⟩ := ht₁.mem_inside.mp hmem
          exact ht₁.exists_child hinner he'
        · exact ht₁.exists_child hlast hkey
    · -- The nearest folder is removed, and the others are next.
      obtain ⟨key, hlocate, hkey, hentry', -, rfl⟩ := withoutFolder?_eq_some.mp hremove
      obtain rfl := ht.eq_of_locate_below hbase hne hfolder (fun _ => nofun) hsmaller hlocate
      have herase : Extends (t₁.erase (root ++ (names ++ [name]))) t₁ := .erase t₁ hkey
      have hpruned := ih (by rwa [List.append_assoc])
        (closed_wellFormed.withoutFolder _ _ _ ht₁ hremove) (herase.trans hsmaller) hrest
      refine ⟨hpruned.smaller.trans herase, fun key e he hnone => ?_,
        fun above habove hprefix => ?_⟩
      · by_cases hhere : key = root ++ (names ++ [name])
        · subst hhere
          exact ⟨Option.some.inj (he.symm.trans hentry'), _, hne, List.prefix_refl _, rfl⟩
        · have hleft : Tree.entry? (t₁.erase (root ++ (names ++ [name]))) key = some e := by
            rw [t₁.entry?_erase hkey, if_neg hhere, he]
          obtain ⟨rfl, above, habove, hprefix, rfl⟩ := hpruned.lost key e hleft hnone
          exact ⟨rfl, above, habove, hprefix.trans (List.prefix_append _ _), rfl⟩
      · rcases List.prefix_concat_iff.mp hprefix with rfl | hprefix
        · intro hleft
          have hgone := hpruned.smaller.entry _ _ hleft
          rw [t₁.entry?_erase hkey, if_pos rfl] at hgone
          cases hgone
        · exact hpruned.filled above habove hprefix

end Disk

/-! ### Deleting files one after another -/

namespace Tree

variable {t t' : Tree} {base : Path} {root key : Key} {names : List String}
  {S : Key → Prop}

/-- What is left of a tree after files with `S` below a root have been deleted and the folders
above them have been pruned. -/
structure Swept (root : Key) (S : Key → Prop) (t t' : Tree) : Prop where
  /-- The tree is well formed. -/
  wellFormed : t'.WellFormed
  /-- Nothing is new. -/
  smaller : Extends t' t
  /-- The files are gone. -/
  gone : ∀ key, S key → t'.entry? key = none
  /-- Besides them, nothing is gone but folders below the root that held one of them. -/
  lost : ∀ key e, t.entry? key = some e → t'.entry? key = none →
    S key ∨ e = .folder ∧ (∃ names, names ≠ [] ∧ key = root ++ names) ∧ ∃ below, S (key ++ below)
  /-- Folders that held one of them and are left have something else in them. -/
  filled : ∀ names, names ≠ [] → t'.entry? (root ++ names) = some .folder →
    (∃ below, S (root ++ names ++ below)) → ∃ name e, t'.entry? (root ++ names ++ [name]) = some e

/-- Before the first deletion nothing is gone. -/
theorem Swept.refl (h : t.WellFormed) : Swept root (fun _ => False) t t where
  wellFormed := h
  smaller := .refl t
  gone _ hS := hS.elim
  lost _ _ he hnone := nomatch he.symm.trans hnone
  filled _ _ _ hS := hS.choose_spec.elim

/-- Deleting one more file. -/
theorem Swept.deleteGenerated (h : Swept root S t t₁) (ht : t.WellFormed)
    (hbase : t.locate true base = .taken root) (hne : names ≠ []) {content : Content}
    (hfile : t.entry? (root ++ names) = some (.file content))
    (hrun : Runs (deleteGenerated base (base.below names)) t₁ () t₂) :
    Swept root (fun key => S key ∨ key = root ++ names) t t₂ := by
  obtain ⟨_, t₁', hdelete, hprune⟩ := runs_bind.mp hrun
  obtain ⟨key, hlocate, hfolder, rfl⟩ := exists_of_withoutFile? (runs_change.mp hdelete)
  obtain rfl := ht.eq_of_locate_below hbase hne hfile (fun _ => nofun) h.smaller hlocate
  have hkey : root ++ names ≠ [] := by simp [hne]
  have herase : Extends (t₁.erase (root ++ names)) t₁ := .erase t₁ hkey
  obtain ⟨above, last, rfl⟩ := (List.eq_nil_or_concat' names).resolve_left hne
  have hpruned := pruned_of_runs ht hbase (by rwa [List.append_assoc])
    (closed_wellFormed.withoutFile _ _ _ h.wellFormed (runs_change.mp hdelete))
    (herase.trans h.smaller) hprune
  have hsmaller : Extends t₂ t₁ := hpruned.smaller.trans herase
  have hfileGone : t₂.entry? (root ++ (above ++ [last])) = none :=
    hpruned.smaller.eq_none (by rw [t₁.entry?_erase hkey, if_pos rfl])
  have hlost {key : Key} {e : Entry} (he : t₁.entry? key = some e) (hnone : t₂.entry? key = none) :
      key = root ++ (above ++ [last]) ∨
        e = .folder ∧ ∃ first, first ≠ [] ∧ first <+: above ∧ key = root ++ first := by
    by_cases hhere : key = root ++ (above ++ [last])
    · exact .inl hhere
    · exact .inr (hpruned.lost key e (by rw [t₁.entry?_erase hkey, if_neg hhere, he]) hnone)
  refine ⟨?_, hsmaller.trans h.smaller, ?_, fun key e he hnone => ?_,
    fun first hfirst hleft hheld => ?_⟩
  · exact (preserves_deleteGenerated (fun t t' => closed_wellFormed.withoutFile t t' _)
      closed_wellFormed.withoutFolder).of_runs hrun h.wellFormed
  · rintro key (hS | rfl)
    · exact hsmaller.eq_none (h.gone key hS)
    · exact hfileGone
  · cases hmiddle : t₁.entry? key with
    | none =>
      exact (h.lost key e he hmiddle).imp .inl fun ⟨hfolder, hbelow, below, hS⟩ =>
        ⟨hfolder, hbelow, below, .inl hS⟩
    | some e' =>
      obtain rfl : e' = e := Option.some.inj ((h.smaller.entry key e' hmiddle).symm.trans he)
      rcases hlost hmiddle hnone with heq | ⟨rfl, first, hfirst, ⟨rest, rfl⟩, rfl⟩
      · exact .inl (.inr heq)
      · exact .inr ⟨rfl, ⟨first, hfirst, rfl⟩, rest ++ [last], .inr (by simp)⟩
  · by_cases hprefix : first <+: above
    · exact hpruned.filled first hfirst hprefix hleft
    · -- Away from the deleted file, nothing has changed.
      have hS : ∃ below, S (root ++ first ++ below) := by
        obtain ⟨below, hS | heq⟩ := hheld
        · exact ⟨below, hS⟩
        · rw [List.append_assoc, List.append_cancel_left_eq] at heq
          rcases List.prefix_concat_iff.mp ⟨below, heq⟩ with rfl | hfirst
          · cases hleft.symm.trans hfileGone
          · exact absurd hfirst hprefix
      obtain ⟨name, e, he⟩ := h.filled first hfirst (hsmaller.entry _ _ hleft) hS
      cases hchild : t₂.entry? (root ++ first ++ [name]) with
      | some e' => exact ⟨name, e', hchild⟩
      | none =>
        refine absurd ?_ hprefix
        rw [List.append_assoc] at he hchild
        rcases hlost he hchild with heq | ⟨-, rest, -, hrest, heq⟩
        · rw [List.append_cancel_left_eq] at heq
          exact (List.append_inj' heq rfl).1 ▸ List.prefix_refl _
        · rw [List.append_cancel_left_eq] at heq
          exact (List.prefix_append first [name]).trans (heq ▸ hrest)

/-- Deleting more files. -/
theorem Swept.deletions {files : List (List String)} (h : Swept root S t t₁) (ht : t.WellFormed)
    (hbase : t.locate true base = .taken root)
    (hfiles : ∀ names ∈ files, names ≠ [] ∧
      ∃ content, t.entry? (root ++ names) = some (.file content))
    (hrun : Runs ((files.map base.below).forM (Disk.deleteGenerated base)) t₁ () t₂) :
    Swept root (fun key => S key ∨ ∃ names ∈ files, key = root ++ names) t t₂ := by
  induction files generalizing S t₁ with
  | nil =>
    obtain ⟨-, rfl⟩ := runs_pure.mp hrun
    simpa using h
  | cons names files ih =>
    obtain ⟨_, t₂, hfirst, hrest⟩ := runs_bind.mp hrun
    obtain ⟨hne, content, hfile⟩ := hfiles names List.mem_cons_self
    have hswept := ih (h.deleteGenerated ht hbase hne hfile hfirst)
      (fun names hnames => hfiles names (List.mem_cons_of_mem _ hnames)) hrest
    simpa [or_assoc] using hswept

/-- A folder that holds files with `S`, and otherwise nothing but folders that hold some. -/
structure Emptied (t : Tree) (S : Key → Prop) (key : Key) : Prop where
  /-- It is a folder. -/
  folder : t.entry? key = some .folder
  /-- It holds one of the files. -/
  held : ∃ below, S (key ++ below)
  /-- It holds nothing else, but for folders that hold one of the files themselves. -/
  only : ∀ below e, below ≠ [] → t.entry? (key ++ below) = some e →
    S (key ++ below) ∨ e = .folder ∧ ∃ deeper, S (key ++ below ++ deeper)

/-- The keys in a tree are not arbitrarily long. -/
theorem exists_length_le (t : Tree) :
    ∃ bound, ∀ key e, t.entry? key = some e → key.length ≤ bound := by
  refine ⟨(t.entries.map fun entry => entry.1.length).sum, fun key e hentry => ?_⟩
  by_cases hkey : key = []
  · simp [hkey]
  · exact List.le_sum_of_mem (List.mem_map_of_mem (mem_entries hkey hentry))

/-- What is gone besides the files are the folders that they were all that kept. -/
theorem Swept.gone_iff (h : Swept root S t t') {e : Entry} (hentry : t.entry? key = some e) :
    t'.entry? key = none ↔
      S key ∨ (∃ names, names ≠ [] ∧ key = root ++ names) ∧ t.Emptied S key := by
  constructor
  · intro hnone
    rcases h.lost key e hentry hnone with hfile | ⟨rfl, hbelow, hheld⟩
    · exact .inl hfile
    · refine .inr ⟨hbelow, hentry, hheld, fun below e hne he => ?_⟩
      have hgone : t'.entry? (key ++ below) = none :=
        Option.eq_none_iff_forall_ne_some.mpr fun e' he' => by
          cases hnone.symm.trans (h.wellFormed.folder_of_append hne he')
      exact (h.lost _ e he hgone).imp_right fun ⟨hfolder, _, hheld⟩ => ⟨hfolder, hheld⟩
  · rintro (hfile | ⟨⟨names, hne, rfl⟩, hemptied⟩)
    · exact h.gone key hfile
    · -- A folder that is left would have a folder in it that is left, and so on.
      by_contra hleft
      have hdeeper (n : Nat) : ∃ below, below.length = n ∧
          t'.entry? (root ++ names ++ below) = some .folder ∧
          ∃ deeper, S (root ++ names ++ below ++ deeper) := by
        induction n with
        | zero =>
          obtain ⟨e', he'⟩ := Option.ne_none_iff_exists'.mp hleft
          have heq := (h.smaller.entry _ _ he').symm.trans hemptied.folder
          exact ⟨[], rfl, by simpa [he'] using heq, by simpa using hemptied.held⟩
        | succ n ih =>
          obtain ⟨below, rfl, hfolder, hheld⟩ := ih
          rw [List.append_assoc] at hfolder hheld
          obtain ⟨name, e', he'⟩ := h.filled (names ++ below) (by simp [hne]) hfolder hheld
          rw [← List.append_assoc, List.append_assoc] at he'
          refine ⟨below ++ [name], by simp, ?_⟩
          have hold := h.smaller.entry _ _ he'
          rcases hemptied.only _ _ (by simp) hold with hfile | ⟨rfl, hdeeper⟩
          · cases he'.symm.trans (h.gone _ hfile)
          · exact ⟨he', hdeeper⟩
      obtain ⟨bound, hbound⟩ := t'.exists_length_le
      obtain ⟨below, hlength, hfolder, -⟩ := hdeeper (bound + 1)
      have := hbound _ _ hfolder
      rw [List.length_append, hlength] at this
      omega

end Tree

end Declgen.Files
