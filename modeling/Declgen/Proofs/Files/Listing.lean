import Declgen.Files.Generated
import Declgen.Proofs.Files.Places
import Declgen.Proofs.Files.WellFormed

/-!
# Listing generated files

The generated files that are listed for a base are those whose keys start with the place to which
the base leads. The path that is listed for such a file leads to it and nowhere else.
-/

namespace Declgen.Files

open Files.Tree

/-- The path that names lead to from a base. -/
def Path.below (base : Path) (names : List String) : Path :=
  names.foldl (fun p name => p.join ⟨name⟩) base

/-- A file with these names and without content. -/
def OutputFile.ofNames (names : List String) : OutputFile := ⟨"/".intercalate names, ""⟩

section Names

variable {names : List String}

/-- The path made of names has these segments. -/
theorem splitAt_ofNames (hne : names ≠ []) (hnames : ∀ name ∈ names, IsName name) :
    Text.splitAt '/' (OutputFile.ofNames names).path = names :=
  Text.splitAt_intercalate hne fun name hname => (hnames name hname).2.2

/-- A name is not empty. -/
theorem ne_empty_of_isName {name : String} (h : IsName name) : name ≠ "" := by
  rintro rfl
  exact absurd h.1 (by decide)

/-- The file made of names has these names. -/
theorem names_ofNames (hne : names ≠ []) (hnames : ∀ name ∈ names, IsName name) :
    (OutputFile.ofNames names).names = names := by
  rw [OutputFile.names, splitAt_ofNames hne hnames]
  refine List.filter_eq_self.mpr fun name hname => ?_
  simpa using ne_empty_of_isName (hnames name hname)

/-- The file made of names is plain. -/
theorem plain_ofNames (hne : names ≠ []) (hnames : ∀ name ∈ names, IsName name) :
    (OutputFile.ofNames names).Plain := by
  refine ⟨?_, fun name hname => ?_⟩
  · rw [splitAt_ofNames hne hnames, List.getLast?_eq_some_getLast hne, ne_eq, Option.some.injEq]
    exact ne_empty_of_isName (hnames _ (List.getLast_mem hne))
  · rw [names_ofNames hne hnames] at hname
    obtain ⟨hidle, hup, -⟩ := hnames name hname
    refine ⟨?_, hup⟩
    rintro rfl
    exact absurd hidle (by decide)

/-- The names in the path of a plain file can name entries of folders. -/
theorem OutputFile.Plain.isName {file : OutputFile} (h : file.Plain) {name : String}
    (hname : name ∈ file.names) : IsName name := by
  obtain ⟨hne, hslash⟩ := OutputFile.mem_names hname
  obtain ⟨hhere, hup⟩ := h.stays name hname
  exact ⟨by simp [Path.isIdle, hne, hhere], hup, hslash⟩

/-- A path below a base is the full path of a file with these names. -/
theorem fullPath_ofNames (hne : names ≠ []) (hnames : ∀ name ∈ names, IsName name) (base : Path) :
    (OutputFile.ofNames names).fullPath base = base.below names := by
  rw [OutputFile.fullPath, splitAt_ofNames hne hnames, Path.below]

/-- The components of a path below a base. -/
theorem Path.components_below (hnames : ∀ name ∈ names, IsName name) (base : Path) :
    (base.below names).components = base.components ++ names.map .name := by
  by_cases hne : names = []
  · rw [hne, List.map_nil, List.append_nil]
    rfl
  · rw [← fullPath_ofNames hne hnames, (plain_ofNames hne hnames).components_fullPath,
      Path.leadComponents_eq, names_ofNames hne hnames]

/-- A path below a base is the full path of a file if it has the names of the file. -/
theorem OutputFile.Plain.same_below_iff {file : OutputFile} (h : file.Plain)
    (hnames : ∀ name ∈ names, IsName name) (base : Path) :
    (file.fullPath base).same (base.below names) = true ↔ file.names = names := by
  rw [Path.same, decide_eq_true_iff, Path.components_below hnames, h.components_fullPath,
    Path.leadComponents_eq, List.append_cancel_left_eq]
  exact (List.map_injective_iff.mpr fun _ _ => Component.name.inj).eq_iff

end Names

namespace Tree

variable {t t' : Tree} {base p : Path} {root key : Key} {names : List String} {e : Entry}

/-! ### Following names -/

/-- A walk that goes on is in a folder. -/
theorem folder_of_walk {follow : Bool} {links : Nat} {here : Key} {segment : String}
    {rest : List String} (h : t.walk follow links here (segment :: rest) = .taken key) :
    t.entry? here = some .folder := by
  by_contra hfolder
  rw [walk, if_pos hfolder] at h
  cases h

/-- A path under which there is an entry leads to a place. -/
theorem get?_isSome (h : (t.get? base).isSome = true) : ∃ key, t.locate true base = .taken key := by
  unfold get? at h
  split at h
  · exact ⟨_, ‹_›⟩
  · cases h

/-- A step does not change where a path leads on which it is not the last. -/
theorem Step.walk_append {p q : Position} (h : Step t p q) (hne : names ≠ []) (follow : Bool) :
    t.walk follow p.links p.here (p.rest ++ names) =
      t.walk follow q.links q.here (q.rest ++ names) := by
  cases h with
  | stay folder idle =>
    rw [List.cons_append, walk, if_neg (by simpa using folder), if_pos idle]
  | climb folder =>
    rw [List.cons_append, walk, if_neg (by simpa using folder), if_neg (by decide), if_pos rfl]
  | follow folder idle up link =>
    rw [List.cons_append, walk, if_neg (by simpa using folder), if_neg idle, if_neg up]
    simp [link, hne]
  | @enter links here segment rest e folder idle up entry link =>
    rw [List.cons_append, walk, if_neg (by simpa using folder), if_neg idle, if_neg up]
    cases e with
    | link target => exact absurd rfl (link target)
    | _ => simp [entry]

/-- Nor does a whole way. -/
theorem Way.walk_append {p q : Position} (h : Way t p q) (hne : names ≠ []) (follow : Bool) :
    t.walk follow p.links p.here (p.rest ++ names) =
      t.walk follow q.links q.here (q.rest ++ names) := by
  induction h with
  | refl => rfl
  | tail _ hstep ih => exact ih.trans (hstep.walk_append hne follow)

/-- In a well-formed tree the names of an entry lead to it, if it is no link. -/
theorem WellFormed.walk_names (h : t.WellFormed) (hnames : ∀ name ∈ names, IsName name)
    (hentry : t.entry? (key ++ names) = some e) (hlink : ∀ target, e ≠ .link target)
    (follow : Bool) (links : Nat) : t.walk follow links key names = .taken (key ++ names) := by
  induction names generalizing key with
  | nil => rw [walk, List.append_nil]
  | cons name names ih =>
    obtain ⟨hidle, hup, -⟩ := hnames name List.mem_cons_self
    have hfolder := h.folder_of_append (List.cons_ne_nil name names) hentry
    have hsplit : key ++ name :: names = key ++ [name] ++ names := by
      rw [List.append_assoc, List.singleton_append]
    rw [hsplit] at hentry ⊢
    have hrest := ih (fun name hname => hnames name (List.mem_cons_of_mem _ hname)) hentry
    rw [walk, if_neg (by simpa using hfolder), if_neg (by simp [hidle]), if_neg hup]
    by_cases hlast : names = []
    · subst hlast
      rw [List.append_nil] at hentry
      cases e with
      | link target => exact absurd rfl (hlink target)
      | _ => simpa [hentry] using hrest
    · simpa [h.folder_of_append hlast hentry] using hrest

/-- A step starts in a folder. -/
theorem Step.folder {links : Nat} {here : Key} {segment : String} {rest : List String}
    {q : Position} (h : Step t ⟨links, here, segment :: rest⟩ q) :
    t.entry? here = some .folder := by
  cases h <;> assumption

/-- An idle segment leads nowhere else. -/
theorem Step.eq_of_idle {links : Nat} {here : Key} {segment : String} {rest : List String}
    {q : Position} (h : Step t ⟨links, here, segment :: rest⟩ q)
    (hidle : Path.isIdle segment = true) : q = ⟨links, here, rest⟩ := by
  cases h with
  | stay folder idle => rfl
  | climb folder => exact absurd hidle (by decide)
  | follow folder idle => exact absurd hidle idle
  | enter folder idle => exact absurd hidle idle

/-- A slash at the end stays in a folder. -/
theorem Way.of_slash {links links' : Nat} {here : Key}
    (h : Way t ⟨links, here, [""]⟩ ⟨links', key, []⟩) :
    key = here ∧ t.entry? here = some .folder := by
  rcases Relation.ReflTransGen.cases_head h with heq | ⟨q, hstep, hrest⟩
  · cases heq
  · refine ⟨?_, hstep.folder⟩
    rw [hstep.eq_of_idle (by decide)] at hrest
    rcases Relation.ReflTransGen.cases_head hrest with heq | ⟨q, hnone, -⟩
    · exact (Position.mk.inj heq).2.1.symm
    · cases hnone

/-- A base leads to the same entry without a slash at its end. -/
theorem exists_way_lead (hbase : t.locate true base = .taken root) :
    ∃ links, Way t ⟨linkLimit, if base.isAbsolute then [] else t.home, base.lead⟩
      ⟨links, root, []⟩ := by
  rw [locate_eq (usable_of_taken hbase)] at hbase
  obtain ⟨links, hway⟩ := siteAt_eq_taken.mp hbase
  rcases Path.segments_cases base with hsegments | hsegments
  · rw [start, hsegments] at hway
    exact ⟨links, hway⟩
  · rw [start, hsegments] at hway
    obtain ⟨links', folder, hlead, hslash⟩ := hway.exists_of_append
    obtain ⟨rfl, -⟩ := hslash.of_slash
    exact ⟨links', hlead⟩

/-- The names of an entry below a base lead to it from there. -/
theorem WellFormed.locate_below (h : t.WellFormed) (hbase : t.locate true base = .taken root)
    (hne : names ≠ []) (hentry : t.entry? (root ++ names) = some e)
    (hlink : ∀ target, e ≠ .link target) {follow : Bool}
    (husable : (base.below names).isUsable = true) :
    t.locate follow (base.below names) = .taken (root ++ names) := by
  have hnames := h.isName_below hentry
  have hplain := plain_ofNames hne hnames
  obtain ⟨links, hway⟩ := exists_way_lead hbase
  rw [locate, husable, ← fullPath_ofNames hne hnames, hplain.segments_fullPath,
    hplain.isAbsolute_fullPath, names_ofNames hne hnames]
  have hwalk := hway.walk_append hne follow
  exact hwalk.trans (h.walk_names hnames hentry hlink follow links)

/-! ### Generated files -/

/-- A generated file holds a text with the marker, and its path has the extension. -/
theorem exists_of_isGeneratedFile (h : isGeneratedFile p e = true) :
    ∃ content, e = .file (.text content) ∧ p.extension? = some extension ∧
      isGenerated content = true := by
  unfold isGeneratedFile at h
  split at h
  · rename_i content
    rw [Bool.and_eq_true, decide_eq_true_eq] at h
    exact ⟨content, rfl, h.1, h.2⟩
  · cases h

/-- The generated files that are listed for a base are the base itself, if it is such a file, and
those below the folder that it leads to. -/
theorem WellFormed.mem_generated (h : t.WellFormed) :
    p ∈ t.generated base ↔ ∃ root names e, t.locate true base = .taken root ∧
      p = base.below names ∧ t.entry? (root ++ names) = some e ∧ isGeneratedFile p e = true ∧
      (names = [] → t.locate false base = .taken root) := by
  have hmem : p ∈ t.generated base ↔
      ∃ e, (p, e) ∈ t.reachable base ∧ isGeneratedFile p e = true := by
    simp [generated]
  rw [hmem]
  constructor
  · rintro ⟨e, hreach, hgenerated⟩
    obtain ⟨content, rfl, -, -⟩ := exists_of_isGeneratedFile hgenerated
    unfold reachable at hreach
    split at hreach
    · rename_i root hbase
      split at hreach
      · obtain ⟨⟨names, e⟩, hinside, heq⟩ := List.mem_map.mp hreach
        cases heq
        obtain ⟨hne, hentry⟩ := h.mem_inside.mp hinside
        exact ⟨root, names, _, hbase, rfl, hentry, hgenerated, fun heq => absurd heq hne⟩
      · split at hreach
        · rename_i key hfile
          rw [Option.mem_toList, Option.map_eq_some_iff] at hreach
          obtain ⟨e, hentry, heq⟩ := hreach
          cases heq
          have hroot := hbase.symm.trans (locate_of_locate_false hfile fun _ => by simp [hentry])
          cases hroot
          refine ⟨root, [], _, hbase, rfl, ?_, hgenerated, fun _ => hfile⟩
          rwa [List.append_nil]
        · cases hreach
    · cases hreach
  · rintro ⟨root, names, e, hbase, rfl, hentry, hgenerated, hfile⟩
    obtain ⟨content, rfl, -, -⟩ := exists_of_isGeneratedFile hgenerated
    refine ⟨_, ?_, hgenerated⟩
    rw [reachable, hbase]
    by_cases hne : names = []
    · subst hne
      rw [List.append_nil] at hentry
      simp [hentry, hfile rfl, Path.below]
    · dsimp only
      rw [h.folder_of_append hne hentry]
      exact List.mem_map.mpr ⟨(names, _), h.mem_inside.mpr ⟨hne, hentry⟩, rfl⟩

/-- A path that is listed leads to a generated file and nowhere else. -/
theorem WellFormed.entry?_of_generated (h : t.WellFormed) (hp : p ∈ t.generated base)
    (hlocate : t.locate false p = .taken key) :
    ∃ content, t.entry? key = some (.file (.text content)) ∧ isGenerated content = true := by
  obtain ⟨root, names, e, hbase, rfl, hentry, hgenerated, hfile⟩ := h.mem_generated.mp hp
  obtain ⟨content, rfl, -, hcontent⟩ := exists_of_isGeneratedFile hgenerated
  suffices hkey : key = root ++ names from ⟨content, hkey ▸ hentry, hcontent⟩
  by_cases hne : names = []
  · subst hne
    rw [List.append_nil]
    exact Site.taken.inj (hlocate.symm.trans (hfile rfl))
  · have husable := usable_of_taken hlocate
    exact Site.taken.inj
      (hlocate.symm.trans (h.locate_below hbase hne hentry (fun _ => nofun) husable))

end Tree

end Declgen.Files
