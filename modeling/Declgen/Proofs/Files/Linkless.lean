import Declgen.Proofs.Files.Contents

/-!
# Trees without links

In a tree without links a path can lead to one place only, which its components tell. So a run can
be described by what it does to the files of the tree, key by key.
-/

namespace Declgen.Files

open Files.Tree

/-- The place to which a component leads. -/
def Component.enter (folder : Key) : Component → Key
  | .root => []
  | .here => folder
  | .up => folder.dropLast
  | .name segment => folder ++ [segment]

namespace Tree

/-- The place to which a path leads, if it leads anywhere, in a tree without links. -/
def place (t : Tree) (p : Path) : Key := p.components.foldl Component.enter t.home

/-- No entry is a link. -/
def LinkFree (t : Tree) : Prop := ∀ key target, t.entry? key ≠ some (.link target)

variable {t t' : Tree} {base p : Path} {key : Key} {names : List String}

/-! ### Places -/

/-- Names lead down, one after the other. -/
theorem foldl_enter_names (key : Key) (names : List String) :
    (names.map Component.name).foldl Component.enter key = key ++ names := by
  induction names generalizing key with
  | nil => simp
  | cons name names ih => simp [ih, Component.enter]

/-- Where the walk along a path ends is told by the components of its segments. -/
theorem LinkFree.walk_eq (h : t.LinkFree) {follow : Bool} {links : Nat} {here : Key}
    {segments : List String} {site : Site} (hwalk : t.walk follow links here segments = site)
    (hsite : site = .taken key ∨ ∃ slash, site = .free key slash) :
    key = (Path.inner segments).foldl Component.enter here := by
  fun_induction t.walk follow links here segments with
  | case1 links here =>
    subst hwalk
    rcases hsite with hsite | ⟨slash, hsite⟩
    · exact (Site.taken.inj hsite).symm
    · cases hsite
  | case3 links here segment rest hfolder hidle ih =>
    rw [Path.inner_cons_of_idle hidle]
    exact ih hwalk
  | case4 links here rest hfolder hidle ih =>
    rw [Path.inner_cons_of_not_idle hidle]
    exact ih hwalk
  | case5 links here segment rest hfolder hidle hup place hnone hrest =>
    subst hwalk
    rw [Bool.and_eq_true] at hrest
    rw [Path.inner_cons_of_not_idle hidle, Path.inner_of_all_empty hrest.1, Path.component,
      if_neg hup]
    rcases hsite with hsite | ⟨slash, hsite⟩
    · cases hsite
    · exact (Site.free.inj hsite).1.symm
  | case7 links here segment rest hfolder hidle hup place target hentry =>
    exact absurd hentry (h _ target)
  | case8 here segment rest hfolder hidle hup place target hentry =>
    exact absurd hentry (h _ target)
  | case9 here segment rest hfolder hidle hup place target hentry =>
    exact absurd hentry (h _ target)
  | case10 links here segment rest hfolder hidle hup place e hnolink hentry ih =>
    rw [Path.inner_cons_of_not_idle hidle, Path.component, if_neg hup]
    exact ih hwalk
  | _ =>
    subst hwalk
    rcases hsite with hsite | ⟨slash, hsite⟩ <;> cases hsite

/-- The place of a path is told by its segments. -/
theorem place_eq (t : Tree) (p : Path) :
    t.place p = (Path.inner p.segments).foldl Component.enter
      (if p.isAbsolute then [] else t.home) := by
  rw [place, Path.components]
  by_cases habsolute : p.isAbsolute = true
  · obtain ⟨next, rest, hsegments⟩ := Path.segments_of_isAbsolute habsolute
    rw [hsegments, Path.inner_cons_of_idle (show Path.isIdle "" = true by decide)]
    simp [habsolute, Component.enter]
  · rw [if_neg habsolute]
    obtain ⟨first, rest, hsegments⟩ := List.exists_cons_of_ne_nil (Text.splitAt_ne_nil p.text)
    have hsegments' : p.segments = first :: rest := hsegments
    rw [hsegments']
    by_cases hdot : first = "."
    · subst hdot
      rw [Path.inner_cons_of_idle (show Path.isIdle "." = true by decide)]
      simp [habsolute, Component.enter]
    · simp [habsolute, hdot]

/-- A path leads to its place or nowhere. -/
theorem LinkFree.eq_place (h : t.LinkFree) {follow : Bool}
    (hlocate : t.locate follow p = .taken key ∨ ∃ slash, t.locate follow p = .free key slash) :
    key = t.place p := by
  rw [place_eq]
  unfold locate at hlocate
  split at hlocate
  · rcases hlocate with hlocate | ⟨slash, hlocate⟩ <;> cases hlocate
  · exact h.walk_eq rfl hlocate

/-- The place of a full path is below the place of the base, by the names of the file. -/
theorem place_fullPath {file : OutputFile} (h : file.Plain) (t : Tree) (base : Path) :
    t.place (file.fullPath base) = t.place base ++ file.names := by
  rw [place, h.components_fullPath, Path.leadComponents_eq, List.foldl_append, foldl_enter_names]
  rfl

/-- The place of a path below a base is below the place of the base, by the names. -/
theorem place_below (hnames : ∀ name ∈ names, IsName name) (t : Tree) (base : Path) :
    t.place (base.below names) = t.place base ++ names := by
  rw [place, Path.components_below hnames, List.foldl_append, foldl_enter_names]
  rfl

/-- The place of a path does not change without a change of the home. -/
theorem OldLinks.place_eq (h : OldLinks t t') (p : Path) : t'.place p = t.place p := by
  rw [place, place, h.home]

/-- Where no link is new, a tree without links stays one. -/
theorem OldLinks.linkFree (h : OldLinks t t') (ht : t.LinkFree) : t'.LinkFree :=
  fun key target hentry => ht key target (h.link key target hentry)

end Tree

/-! ### Generated files by key -/

/-- Whether the file with a key is a generated one at or below a base, if there is such a base. -/
def Tree.isGeneratedAt (t : Tree) (base : Path) (key : Key) : Bool :=
  (t.get? base).isSome && (t.place base).isPrefixOf key && isMarked key (t.file? key)

namespace Path

variable {p q : Path} {name : String}

/-- The last component of a path is that of its last segment which says something. -/
theorem getLast?_components {c : Component} (h : (inner p.segments).getLast? = some c) :
    p.components.getLast? = some c := by
  have hcons (d : Component) {cs : List Component} (hcs : cs.getLast? = some c) :
      (d :: cs).getLast? = some c := by rw [List.getLast?_cons, hcs, Option.getD_some]
  rw [components]
  by_cases habsolute : p.isAbsolute = true
  · obtain ⟨next, rest, hsegments⟩ := segments_of_isAbsolute habsolute
    rw [hsegments, Path.inner_cons_of_idle (show Path.isIdle "" = true by decide)] at h
    simpa [hsegments, habsolute] using hcons _ h
  · obtain ⟨first, rest, hsegments⟩ := List.exists_cons_of_ne_nil (Text.splitAt_ne_nil p.text)
    have hsegments' : p.segments = first :: rest := hsegments
    rw [hsegments'] at h ⊢
    by_cases hdot : first = "."
    · subst hdot
      rw [Path.inner_cons_of_idle (show Path.isIdle "." = true by decide)] at h
      simpa [habsolute] using hcons _ h
    · simpa [habsolute, hdot] using h

end Path

namespace Tree

variable {t : Tree} {base p : Path} {key : Key} {names : List String}

/-- The place of a path ends in its file name. -/
theorem getLast?_place {name : String} (h : p.fileName? = some name) :
    (t.place p).getLast? = some name := by
  unfold Path.fileName? at h
  split at h
  · rename_i last hlast
    cases h
    obtain ⟨above, habove⟩ := List.getLast?_eq_some_iff.mp hlast
    rw [place, habove, List.foldl_concat, Component.enter, List.getLast?_concat]
  · cases h

/-- A path that leads to a file ends with the name of the file. -/
theorem LinkFree.fileName?_eq (h : t.LinkFree) (ht : t.WellFormed) {content : Content}
    (hlocate : t.locate true p = .taken key) (hentry : t.entry? key = some (.file content)) :
    ∃ name, p.fileName? = some name ∧ key.getLast? = some name := by
  have hwalk {links : Nat} {here : Key} {segments : List String}
      (hwalk : t.walk true links here segments = .taken key)
      (hhere : t.entry? here = some .folder) :
      ∃ name, (Path.inner segments).getLast? = some (.name name) ∧ key.getLast? = some name := by
    fun_induction t.walk true links here segments with
    | case1 links here =>
      cases hwalk
      cases hhere.symm.trans hentry
    | case3 links here segment rest hfolder hidle ih =>
      rw [Path.inner_cons_of_idle hidle]
      exact ih hwalk hhere
    | case4 links here rest hfolder hidle ih =>
      have hparent : t.entry? here.dropLast = some .folder := by
        obtain rfl | ⟨above, name, rfl⟩ := List.eq_nil_or_concat' here
        · exact t.entry?_nil
        · rw [List.dropLast_concat]
          exact ht.folder hhere
      obtain ⟨name, hlast, hkey⟩ := ih hwalk hparent
      refine ⟨name, ?_, hkey⟩
      rw [Path.inner_cons_of_not_idle hidle, List.getLast?_cons, hlast, Option.getD_some]
    | case7 links here segment rest hfolder hidle hup place target hlink =>
      exact absurd hlink (h _ target)
    | case9 here segment rest hfolder hidle hup place target hlink =>
      exact absurd hlink (h _ target)
    | case10 links here segment rest hfolder hidle hup place e hnolink hplace ih =>
      rw [Path.inner_cons_of_not_idle hidle, Path.component, if_neg hup]
      cases rest with
      | nil =>
        rw [walk] at hwalk
        exact ⟨segment, rfl, Site.taken.inj hwalk ▸ List.getLast?_concat⟩
      | cons next rest =>
        obtain ⟨name, hlast, hkey⟩ := ih hwalk (folder_of_walk hwalk)
        refine ⟨name, ?_, hkey⟩
        rw [List.getLast?_cons, hlast, Option.getD_some]
    | _ => cases hwalk
  rw [locate_eq (usable_of_taken hlocate), siteAt, start] at hlocate
  obtain ⟨first, rest, hsegments⟩ := List.exists_cons_of_ne_nil (Text.splitAt_ne_nil p.text)
  have hsegments' : p.segments = first :: rest := hsegments
  have hstart := hlocate
  rw [hsegments'] at hstart
  obtain ⟨name, hlast, hkey⟩ := hwalk hlocate (folder_of_walk hstart)
  exact ⟨name, by rw [Path.fileName?, Path.getLast?_components hlast], hkey⟩

/-- The generated files that are listed for a base are those whose keys start with its place. -/
theorem LinkFree.mem_generated (h : t.LinkFree) (ht : t.WellFormed) :
    p ∈ t.generated base ↔ ∃ names, p = base.below names ∧
      t.isGeneratedAt base (t.place base ++ names) = true := by
  rw [ht.mem_generated]
  constructor
  · rintro ⟨root, names, e, hbase, rfl, hentry, hgenerated, -⟩
    obtain ⟨content, rfl, hextension, hcontent⟩ := exists_of_isGeneratedFile hgenerated
    obtain rfl := h.eq_place (.inl hbase)
    have hnames := ht.isName_below hentry
    refine ⟨names, rfl, ?_⟩
    have hsome : (t.get? base).isSome = true := by
      rw [get?, hbase]
      by_cases hne : names = []
      · rw [hne, List.append_nil] at hentry
        simp [hentry]
      · simp [ht.folder_of_append hne hentry]
    have hlast : ((t.place base ++ names).getLast?.bind fun name => Path.extension? ⟨name⟩) =
        some extension := by
      obtain ⟨name, hname⟩ : ∃ name, (base.below names).fileName? = some name := by
        unfold Path.extension? at hextension
        split at hextension
        · cases hextension
        · exact ⟨_, ‹_›⟩
      have hplace : (t.place (base.below names)).getLast? = some name := getLast?_place hname
      rw [place_below hnames] at hplace
      rw [hplace, Option.bind_some, ← hextension]
      refine Path.extension?_congr ?_
      rw [hname, Path.fileName?_of_isName (ht.isName hentry (List.mem_of_getLast? hplace))]
    have hmarked : isMarked (t.place base ++ names) (some (.text content)) = true := by
      rw [isMarked, hlast, hcontent]
      rfl
    rw [isGeneratedAt, hsome, file?_eq_some.mpr hentry, hmarked]
    simp
  · rintro ⟨names, rfl, hgenerated⟩
    rw [isGeneratedAt, Bool.and_eq_true, Bool.and_eq_true] at hgenerated
    obtain ⟨⟨hsome, -⟩, hmarked⟩ := hgenerated
    obtain ⟨root, hbase⟩ := get?_isSome hsome
    obtain rfl := h.eq_place (.inl hbase)
    unfold isMarked at hmarked
    split at hmarked
    · rename_i content hfile
      rw [file?_eq_some] at hfile
      rw [Bool.and_eq_true, decide_eq_true_eq, Option.bind_eq_some_iff] at hmarked
      obtain ⟨⟨name, hlast, hextension⟩, hcontent⟩ := hmarked
      have hname : IsName name := ht.isName hfile (List.mem_of_getLast? hlast)
      have hfileName : (base.below names).fileName? = some name := by
        by_cases hne : names = []
        · subst hne
          rw [List.append_nil] at hfile hlast
          obtain ⟨name', hname', hlast'⟩ := h.fileName?_eq ht hbase hfile
          rw [Option.some.inj (hlast.symm.trans hlast')]
          exact hname'
        · refine Path.fileName?_below base (ht.isName_below hfile) ?_
          rwa [List.getLast?_append_of_ne_nil _ hne] at hlast
      refine ⟨_, names, _, hbase, rfl, hfile, ?_, fun _ => (Extends.refl t).locate_eq
        (fun hyes => absurd hyes (by decide)) (fun _ _ => h) hbase⟩
      rw [isGeneratedFile, Path.extension?_congr (hfileName.trans
        (Path.fileName?_of_isName hname).symm), hextension, hcontent]
      rfl
    · cases hmarked

end Tree

end Declgen.Files
