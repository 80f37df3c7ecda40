import Declgen.Proofs.Files.Invariants
import Declgen.Proofs.Text.Splitting
import Mathlib.Data.List.Induction

/-!
# Well-formed trees

In a well-formed tree every entry is listed once, stands in a folder, and has names that a path can
spell. Every run leaves a well-formed tree, no matter where it fails.
-/

namespace Declgen.Files

/-- A text that can name an entry of a folder. -/
def IsName (name : String) : Prop :=
  Path.isIdle name = false ∧ name ≠ ".." ∧ '/' ∉ name.toList

instance (name : String) : Decidable (IsName name) := inferInstanceAs (Decidable (_ ∧ _ ∧ _))

/-- A tree whose entries are listed in order, under keys made of names, and stand in folders. -/
structure Tree.WellFormed (t : Tree) : Prop where
  /-- The keys are in order, so that each is listed once. -/
  ordered : (t.entries.map (·.1)).Pairwise (· < ·)
  /-- Every entry stands in a folder. -/
  inFolder : ∀ entry ∈ t.entries, entry.1 ≠ [] ∧ t.entry? entry.1.dropLast = some .folder
  /-- Keys are made of names. -/
  named : ∀ entry ∈ t.entries, ∀ name ∈ entry.1, IsName name

/-! ### Lists of entries -/

/-- Whatever is among the entries after one has been put is this one or was there before. -/
theorem mem_putEntry {key : Key} {entry : Entry} {entries : List (Key × Entry)}
    {other : Key × Entry} (h : other ∈ putEntry key entry entries) :
    other = (key, entry) ∨ other ∈ entries := by
  induction entries with
  | nil => exact .inl (List.mem_singleton.mp h)
  | cons first entries ih =>
    obtain ⟨first, old⟩ := first
    rw [putEntry] at h
    split at h
    · exact (List.mem_cons.mp h).imp_right (List.mem_cons_of_mem _)
    · split at h
      · exact List.mem_cons.mp h
      · rcases List.mem_cons.mp h with rfl | h
        · exact .inr List.mem_cons_self
        · exact (ih h).imp_right (List.mem_cons_of_mem _)

/-- Putting an entry into its place keeps the keys in order. -/
theorem ordered_putEntry (key : Key) (entry : Entry) {entries : List (Key × Entry)}
    (h : (entries.map (·.1)).Pairwise (· < ·)) :
    ((putEntry key entry entries).map (·.1)).Pairwise (· < ·) := by
  induction entries with
  | nil => exact List.pairwise_singleton _ _
  | cons first entries ih =>
    obtain ⟨first, old⟩ := first
    obtain ⟨hfirst, hrest⟩ := List.pairwise_cons.mp h
    rw [putEntry]
    split
    · rename_i heq
      subst heq
      exact h
    · rename_i hne
      split
      · rename_i hlt
        refine List.pairwise_cons.mpr ⟨fun other hother => ?_, h⟩
        rcases List.mem_cons.mp hother with rfl | hother
        · exact hlt
        · exact List.lt_trans hlt (hfirst other hother)
      · rename_i hlt
        refine List.pairwise_cons.mpr ⟨fun other hother => ?_, ih hrest⟩
        obtain ⟨entry', hentry', rfl⟩ := List.mem_map.mp hother
        rcases mem_putEntry hentry' with rfl | hentry'
        · exact ((Std.lt_trichotomy _ _).resolve_left hlt).resolve_left hne
        · exact hfirst _ (List.mem_map_of_mem hentry')

/-- An entry that is filtered out is not found, and others stay. -/
theorem lookup_filter_ne (key : Key) (entries : List (Key × Entry)) (other : Key) :
    (entries.filter fun entry => entry.1 ≠ key).lookup other =
      if other = key then none else entries.lookup other := by
  induction entries with
  | nil => simp
  | cons first entries ih =>
    obtain ⟨first, old⟩ := first
    by_cases hfirst : first = key
    · rw [List.filter_cons_of_neg (by simpa using hfirst), ih]
      split
      · rfl
      · rename_i hne
        rw [List.lookup_cons, beq_eq_false_iff_ne.mpr fun heq => hne (heq.trans hfirst)]
    · rw [List.filter_cons_of_pos (by simpa using hfirst), List.lookup_cons, ih, List.lookup_cons]
      by_cases heq : other = first
      · subst heq
        simp [hfirst]
      · rw [beq_eq_false_iff_ne.mpr heq]

namespace Tree

variable {t t' : Tree} {key : Key} {e : Entry}

/-- What is found after an entry has been erased. -/
theorem entry?_erase (t : Tree) (hkey : key ≠ []) (other : Key) :
    entry? (t.erase key) other = if other = key then none else t.entry? other := by
  cases other with
  | nil => simp [ entry?, hkey.symm]
  | cons name names => exact lookup_filter_ne key t.entries _

/-- Taking an entry out adds nothing. -/
theorem Extends.erase (t : Tree) (hkey : key ≠ []) : Extends (t.erase key) t := by
  refine ⟨rfl, fun other e he => ?_⟩
  rw [t.entry?_erase hkey] at he
  split at he
  · cases he
  · exact he

namespace WellFormed

/-- In a well-formed tree an entry that is written down is found. -/
theorem entry?_of_mem (h : t.WellFormed) (hmem : (key, e) ∈ t.entries) : t.entry? key = some e := by
  have hkey : key ≠ [] := (h.inFolder _ hmem).1
  rw [ entry?, if_neg (by simpa using hkey), List.lookup_eq_some_iff]
  obtain ⟨before, after, heq⟩ := List.append_of_mem hmem
  refine ⟨before, after, heq, fun entry hentry => ?_⟩
  have hordered := h.ordered
  rw [heq, List.map_append, List.map_cons, List.pairwise_append] at hordered
  have hlt : entry.1 < key :=
    hordered.2.2 _ (List.mem_map_of_mem hentry) _ List.mem_cons_self
  rw [bne_iff_ne]
  exact fun heq => List.lt_irrefl key (heq ▸ hlt)

/-- The folder of an entry is there. -/
theorem folder (h : t.WellFormed) {name : String} (hentry : t.entry? (key ++ [name]) = some e) :
    t.entry? key = some .folder := by
  have hmem := mem_entries (by simp) hentry
  have hfolder := (h.inFolder _ hmem).2
  rwa [List.dropLast_concat] at hfolder

/-- All folders on the way to an entry are there. -/
theorem folder_of_append (h : t.WellFormed) {names : List String} (hne : names ≠ [])
    (hentry : t.entry? (key ++ names) = some e) : t.entry? key = some .folder := by
  induction names using List.reverseRecOn generalizing e with
  | nil => exact absurd rfl hne
  | append_singleton names name ih =>
    rw [← List.append_assoc] at hentry
    have hfolder := h.folder hentry
    by_cases hnames : names = []
    · rwa [hnames, List.append_nil] at hfolder
    · exact ih hnames hfolder

/-- The parts of keys are names. -/
theorem isName (h : t.WellFormed) (hentry : t.entry? key = some e) {name : String}
    (hname : name ∈ key) : IsName name :=
  h.named _ (mem_entries (List.ne_nil_of_mem hname) hentry) name hname

/-- So are the parts of a key below another one. -/
theorem isName_below (h : t.WellFormed) {names : List String}
    (hentry : t.entry? (key ++ names) = some e) : ∀ name ∈ names, IsName name :=
  fun _ hname => h.isName hentry (List.mem_append_right _ hname)

/-- What is inside a folder, under the names that lead to it from there. -/
theorem mem_inside (h : t.WellFormed) {names : List String} :
    (names, e) ∈ t.inside key ↔ names ≠ [] ∧ t.entry? (key ++ names) = some e := by
  constructor
  · intro hmem
    obtain ⟨⟨key', e'⟩, hentry, hinside⟩ := List.mem_filterMap.mp hmem
    dsimp only at hinside
    split at hinside
    · rename_i hprefix
      rw [Bool.and_eq_true, List.isPrefixOf_iff_prefix, decide_eq_true_eq] at hprefix
      obtain ⟨⟨rest, rfl⟩, hlength⟩ := hprefix
      rw [List.drop_left] at hinside
      cases hinside
      rw [List.length_append] at hlength
      exact ⟨List.length_pos_iff.mp (by omega), h.entry?_of_mem hentry⟩
    · cases hinside
  · rintro ⟨hne, hentry⟩
    refine List.mem_filterMap.mpr ⟨_, mem_entries (by simp [hne]) hentry, ?_⟩
    simp [hne]

/-! ### Changes -/

/-- An entry may be put into a folder, under a name, where there is no other folder. -/
theorem put (h : t.WellFormed) {here : Key} {name : String} (hhere : t.entry? here = some .folder)
    (hname : IsName name) (hold : t.entry? (here ++ [name]) ≠ some .folder) (e : Entry) :
    (t.put (here ++ [name]) e).WellFormed := by
  have hput := t.entry?_put (show here ++ [name] ≠ [] by simp) e
  have hnames : ∀ name' ∈ here ++ [name], IsName name' := by
    intro name' hname'
    rcases List.mem_append.mp hname' with hname' | hname'
    · exact h.isName hhere hname'
    · rwa [List.mem_singleton.mp hname']
  refine ⟨ordered_putEntry _ e h.ordered, fun entry hentry => ?_, fun entry hentry => ?_⟩
  · rcases mem_putEntry hentry with rfl | hentry
    · rw [List.dropLast_concat, hput, if_neg (by simp)]
      exact ⟨by simp, hhere⟩
    · obtain ⟨hne, hfolder⟩ := h.inFolder entry hentry
      refine ⟨hne, ?_⟩
      rw [hput, if_neg, hfolder]
      intro heq
      exact hold (heq ▸ hfolder)
  · rcases mem_putEntry hentry with rfl | hentry
    · exact hnames
    · exact h.named entry hentry

/-- An entry that holds no others may be taken out. -/
theorem erase (h : t.WellFormed) (hkey : key ≠ [])
    (hleaf : ∀ name, t.entry? (key ++ [name]) = none) : (t.erase key).WellFormed := by
  have hmem {entry : Key × Entry} (hentry : entry ∈ (t.erase key).entries) :
      entry ∈ t.entries := (List.mem_filter.mp hentry).1
  refine ⟨h.ordered.sublist (List.filter_sublist.map _), fun entry hentry => ?_,
    fun entry hentry => h.named entry (hmem hentry)⟩
  obtain ⟨hne, hfolder⟩ := h.inFolder entry (hmem hentry)
  refine ⟨hne, ?_⟩
  rw [t.entry?_erase hkey, if_neg, hfolder]
  intro heq
  have hentry' := h.entry?_of_mem (hmem hentry)
  rw [← List.dropLast_append_getLast hne, heq, hleaf] at hentry'
  cases hentry'

end WellFormed

/-- A free place is in a folder, under a name. -/
theorem exists_of_free {follow slash : Bool} {p : Path} (h : t.locate follow p = .free key slash) :
    ∃ here name, key = here ++ [name] ∧ t.entry? here = some .folder ∧ IsName name := by
  have hwalk {links : Nat} {here : Key} {segments : List String}
      (hsegments : ∀ segment ∈ segments, '/' ∉ segment.toList)
      (h : t.walk follow links here segments = .free key slash) :
      ∃ here name, key = here ++ [name] ∧ t.entry? here = some .folder ∧ IsName name := by
    fun_induction t.walk follow links here segments with
    | case5 links here segment rest hfolder hidle hup place hnone hrest =>
      refine ⟨here, segment, (Site.free.inj h).1.symm, Decidable.not_not.mp hfolder, ?_⟩
      exact ⟨by simpa using hidle, hup, hsegments segment List.mem_cons_self⟩
    | case3 links here segment rest hfolder hidle ih =>
      exact ih (fun s hs => hsegments s (List.mem_cons_of_mem _ hs)) h
    | case4 links here rest hfolder hidle ih =>
      exact ih (fun s hs => hsegments s (List.mem_cons_of_mem _ hs)) h
    | case9 here segment rest hfolder hidle hup place target hlink hrest links start ih =>
      refine ih (fun s hs => ?_) h
      rcases List.mem_append.mp hs with hs | hs
      · exact (Text.mem_splitAt hs).1
      · exact hsegments s (List.mem_cons_of_mem _ hs)
    | case10 links here segment rest hfolder hidle hup place e hlink hentry ih =>
      exact ih (fun s hs => hsegments s (List.mem_cons_of_mem _ hs)) h
    | _ => cases h
  rw [locate] at h
  split at h
  · cases h
  · exact hwalk (fun segment hsegment => (Text.mem_splitAt hsegment).1) h

/-- A folder that is made is put at a free place. -/
theorem exists_of_withFolder? {p : Path} (h : t.withFolder? p = some t') :
    t' = t ∨ ∃ key slash, t.locate false p = .free key slash ∧ t' = t.put key .folder := by
  unfold withFolder? at h
  split at h
  · cases h
    exact .inl rfl
  · split at h
    · rename_i key slash hlocate
      cases h
      exact .inr ⟨key, slash, hlocate, rfl⟩
    · cases h

/-- A file that is written is put at a free place or instead of another file. -/
theorem exists_of_withFile? {p : Path} {content : Content} (h : t.withFile? p content = some t') :
    ∃ key, t' = t.put key (.file content) ∧ (t.locate true p = .free key false ∨
      t.locate true p = .taken key ∧ ∃ old, t.entry? key = some (.file old)) := by
  unfold withFile? at h
  split at h
  · rename_i key slash hlocate
    cases slash with
    | true => cases h
    | false =>
      cases h
      exact ⟨key, rfl, .inl hlocate⟩
  · rename_i key hlocate
    split at h
    · rename_i old hold
      cases h
      exact ⟨key, rfl, .inr ⟨hlocate, old, hold⟩⟩
    · cases h
  · cases h

/-- What is deleted is no folder. -/
theorem exists_of_withoutFile? {p : Path} (h : t.withoutFile? p = some t') :
    ∃ key, t.locate false p = .taken key ∧ t.entry? key ≠ some .folder ∧ t' = t.erase key := by
  unfold withoutFile? at h
  split at h
  · rename_i key hlocate
    split at h
    · cases h
    · rename_i hfolder
      cases h
      exact ⟨key, hlocate, hfolder, rfl⟩
  · cases h

/-- A folder is removed if a path leads to it and it is empty, unless it is the top. -/
theorem withoutFolder?_eq_some {p : Path} :
    t.withoutFolder? p = some t' ↔ ∃ key, t.locate false p = .taken key ∧ key ≠ [] ∧
      t.entry? key = some .folder ∧ t.inside key = [] ∧ t' = t.erase key := by
  unfold withoutFolder?
  cases hlocate : t.locate false p with
  | taken key =>
    simp only [Bool.and_eq_true, decide_eq_true_eq, List.isEmpty_iff, Bool.not_eq_true',
      List.isEmpty_eq_false_iff, Option.ite_none_right_eq_some, Option.some.injEq, Site.taken.injEq,
      exists_eq_left']
    constructor
    · rintro ⟨⟨⟨hfolder, hinside⟩, hkey⟩, rfl⟩
      exact ⟨hkey, hfolder, hinside, rfl⟩
    · rintro ⟨hkey, hfolder, hinside, rfl⟩
      exact ⟨⟨⟨hfolder, hinside⟩, hkey⟩, rfl⟩
  | free key slash => simp
  | nowhere => simp

/-- A folder that is removed is empty. -/
theorem exists_of_withoutFolder? {p : Path} (h : t.withoutFolder? p = some t') :
    ∃ key, key ≠ [] ∧ t.entry? key = some .folder ∧ t.inside key = [] ∧ t' = t.erase key := by
  obtain ⟨key, -, hkey⟩ := withoutFolder?_eq_some.mp h
  exact ⟨key, hkey⟩

/-- Every operation keeps a tree well formed. -/
theorem closed_wellFormed : Disk.Closed WellFormed where
  withFolder t t' p h hmake := by
    rcases exists_of_withFolder? hmake with rfl | ⟨key, slash, hlocate, rfl⟩
    · exact h
    · obtain ⟨here, name, rfl, hhere, hname⟩ := exists_of_free hlocate
      exact h.put hhere hname (by simp [entry?_of_free hlocate]) _
  withFile t t' p content h hwrite := by
    obtain ⟨key, rfl, hlocate | ⟨-, old, hold⟩⟩ := exists_of_withFile? hwrite
    · obtain ⟨here, name, rfl, hhere, hname⟩ := exists_of_free hlocate
      exact h.put hhere hname (by simp [entry?_of_free hlocate]) _
    · obtain rfl | ⟨here, name, rfl⟩ := List.eq_nil_or_concat' key
      · cases hold
      · have hname : name ∈ here ++ [name] := List.mem_append_right _ (List.mem_singleton.mpr rfl)
        exact h.put (h.folder hold) (h.isName hold hname) (by simp [hold]) _
  withoutFile t t' p h hdelete := by
    obtain ⟨key, -, hfolder, rfl⟩ := exists_of_withoutFile? hdelete
    refine h.erase (fun heq => hfolder (heq ▸ t.entry?_nil)) fun name => ?_
    exact Option.eq_none_iff_forall_ne_some.mpr fun e he => hfolder (h.folder he)
  withoutFolder t t' p h hremove := by
    obtain ⟨key, hkey, -, hinside, rfl⟩ := exists_of_withoutFolder? hremove
    refine h.erase hkey fun name => Option.eq_none_iff_forall_ne_some.mpr fun e he => ?_
    have hmem := h.mem_inside.mpr ⟨List.cons_ne_nil name [], he⟩
    rw [hinside] at hmem
    cases hmem

end Tree

end Declgen.Files
