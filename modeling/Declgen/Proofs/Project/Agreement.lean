import Declgen.Proofs.Files.Rewriting
import Declgen.Proofs.Plan.Collisions

/-!
# Checks, dry runs and runs agree

A check, a dry run and a run that writes prepare the same generation. They differ in what they do
with it: a check counts, a dry run lists the files, and only the last one writes. So nothing is
written before the preparation has succeeded, and what is written is what the dry run lists.
-/

namespace Declgen.Project

open Files Manifest

section Run

variable {α : Type}

/-- What a run says. -/
def Run.result (r : Run α) (t : Tree) : Except RunError α := (r.run.run t).1

/-- The tree that a run leaves. -/
def Run.leaves (r : Run α) (t : Tree) : Tree := (r.run.run t).2

end Run

/-- What a check says about a prepared project. -/
def Prepared.checked (p : Prepared) (config : Path) : CheckResult :=
  ⟨config, p.definitions, p.generation.units.map qualifiedName, p.generation.files.length⟩

/-- What a dry run says about a prepared project. -/
def Prepared.previewed (p : Prepared) (s : Settings) : GenerateResult :=
  ⟨s.model, p.generation.units.length, .preview (outputFiles p.generation)⟩

/-- What a run says that has written the files of a prepared project. -/
def Prepared.written (p : Prepared) (s : Settings) (output : Path) (report : WriteReport) :
    GenerateResult :=
  ⟨s.model, p.generation.units.length, .written output report⟩

variable {t : Tree} {s : Settings} {folder output config : Path} {p : Prepared}

/-- A run that prepares the project fails with the preparation, and then the tree stays as it
was. -/
theorem run_prepare {α : Type} (t : Tree) (s : Settings) (folder : Path) (rest : Prepared → Run α) :
    (do let p ← ExceptT.mk (pure (prepare (← get) s folder)); rest p : Run α).run.run t =
      match prepare t s folder with
      | .error e => (.error e, t)
      | .ok p => (rest p).run.run t := by
  have hget : (do let p ← ExceptT.mk (pure (prepare (← get) s folder)); rest p : Run α).run.run t =
      (ExceptT.mk (pure (prepare t s folder)) >>= rest).run.run t := rfl
  rw [hget]
  cases prepare t s folder <;> rfl

/-- A check says what has been prepared, and it leaves the tree as it is. -/
theorem run_check (t : Tree) (s : Settings) (config : Path) : (check s config).run.run t =
    ((prepare t s (folderOf config)).map (·.checked config), t) := by
  rw [check, run_prepare]
  cases prepare t s (folderOf config) <;> rfl

/-- So does a dry run. -/
theorem run_preview (t : Tree) (s : Settings) (folder output : Path) :
    (generateInto s folder output true).run.run t =
      ((prepare t s folder).map (·.previewed s), t) := by
  rw [generateInto, run_prepare]
  cases prepare t s folder <;> rfl

/-- A computation on the files, as part of a run. -/
theorem run_onDisk {α : Type} (wrap : DiskError → RunError) (d : Disk α) (t : Tree) :
    (onDisk wrap d).run.run t = ((d.run.run t).1.mapError wrap, (d.run.run t).2) := rfl

/-- A run that writes writes the files of the prepared project and nothing else. -/
theorem run_write (t : Tree) (s : Settings) (folder output : Path) :
    (generateInto s folder output false).run.run t =
      match prepare t s folder with
      | .error e => (.error e, t)
      | .ok p =>
        match (Disk.writeAll output
          (OutputSet.empty.addAll (outputFiles p.generation))).run.run t with
        | (.error cause, t') => (.error (.writing cause), t')
        | (.ok report, t') => (.ok (p.written s output report), t') := by
  rw [generateInto, run_prepare]
  cases prepare t s folder with
  | error e => rfl
  | ok p =>
    simp only [Bool.false_eq_true, if_false, ExceptT.run_bind, ExceptT.run_map, StateT.run_bind,
      StateT.run_map, run_onDisk]
    rcases (Disk.writeAll output (OutputSet.empty.addAll (outputFiles p.generation))).run.run t with
      ⟨e | report, t'⟩
    · rfl
    · rfl

/-! ### Agreement -/

/-- Whether a run failed before anything is written: while the model document is loaded, while the
roots are resolved, or while the declarations are generated. -/
def RunError.BeforeWriting : RunError → Prop
  | .model .. | .document .. | .roots _ | .generation _ => True
  | .writing _ | .cleaning .. => False

/-- A check, a dry run and a run that writes agree about a project. -/
structure Agree (t : Tree) (s : Settings) (config output : Path) : Prop where
  /-- The check succeeds exactly if the dry run does. -/
  succeed : (∃ r, (check s config).result t = .ok r) ↔
    ∃ r, (generateInto s (folderOf config) output true).result t = .ok r
  /-- They fail for the same reason. -/
  fail : ∀ e, (check s config).result t = .error e ↔
    (generateInto s (folderOf config) output true).result t = .error e
  /-- They count the same units and files. -/
  count : ∀ r r', (check s config).result t = .ok r →
    (generateInto s (folderOf config) output true).result t = .ok r' →
    ∃ files, r'.outcome = .preview files ∧ r.units.length = r'.units ∧ r.files = files.length
  /-- What a run has written or found unchanged are the paths that the dry run lists, each once. -/
  write : ∀ r, (generateInto s (folderOf config) output false).result t = .ok r →
    ∃ r' files report, (generateInto s (folderOf config) output true).result t = .ok r' ∧
      r'.outcome = .preview files ∧ r.outcome = .written output report ∧ r.units = r'.units ∧
      (report.written ++ report.unchanged).Perm (files.map (·.path)) ∧
      (report.written ++ report.unchanged).Nodup

/-- A computation whose errors are renamed has the same results. -/
theorem mapError_eq_ok_iff {ε ε' α : Type} {f : ε → ε'} {x : Except ε α} {a : α} :
    x.mapError f = .ok a ↔ x = .ok a := by
  cases x with
  | ok b => rw [Except.mapError, Except.ok.injEq, Except.ok.injEq]
  | error e => constructor <;> exact fun h => by cases h

/-- A project is prepared by reading and loading its model document, resolving its roots and
generating its declarations. -/
theorem prepare_eq_ok_iff : prepare t s folder = .ok p ↔
    ∃ source document loaded roots, t.text? (s.modelPath folder) = some source ∧
      Document.parse source = .ok document ∧ Document.load document = .ok loaded ∧
      loaded.resolveRoots s.roots = .ok roots ∧
      generate ⟨s.options, fun _ => none⟩ .empty loaded.model roots = .ok p.generation ∧
      p.definitions = document.definitions.length := by
  constructor
  · intro h
    obtain ⟨document, hread, h⟩ := bind_eq_ok h
    obtain ⟨loaded, hload, h⟩ := bind_eq_ok h
    obtain ⟨roots, hroots, h⟩ := bind_eq_ok h
    obtain ⟨generation, hgenerate, hpure⟩ := bind_eq_ok h
    rw [mapError_eq_ok_iff] at hread hload hroots hgenerate
    cases hpure
    unfold readDocument at hread
    split at hread
    · rename_i source htext
      exact ⟨source, document, loaded, roots, htext, hread, hload, hroots, hgenerate, rfl⟩
    · cases hread
  · rintro ⟨source, document, loaded, roots, htext, hparse, hload, hroots, hgenerate, hcount⟩
    have hread : readDocument t (s.modelPath folder) = .ok document := by
      rw [readDocument, htext]
      exact hparse
    simp only [prepare, hread, hload, hroots, hgenerate, Except.mapError, bind, Except.bind, pure,
      Except.pure, ← hcount]

/-- The files of a prepared project have different paths. -/
theorem nodup_outputFiles (h : prepare t s folder = .ok p) :
    ((outputFiles p.generation).map (·.path)).Nodup := by
  obtain ⟨_, _, _, _, _, _, hload, _, hgenerate, -⟩ := prepare_eq_ok_iff.mp h
  obtain ⟨units, hwalk, hpure⟩ := bind_eq_ok hgenerate
  have hgeneration : p.generation = ⟨units, Plan.files s.options units⟩ :=
    (Except.ok.inj hpure).symm
  obtain ⟨-, trees, state, hwalked⟩ := Walk.walked_of_walk hload (fun _ => rfl) hwalk
  rw [hgeneration]
  exact Plan.nodup_planned (hwalked.linked (Document.loaded hload).wellFormed).numbered

/-- A run that has written its files has written or found unchanged each planned path once. -/
theorem perm_paths {report : WriteReport} {t' : Tree} {files : List OutputFile}
    (hnodup : (files.map (·.path)).Nodup)
    (h : Disk.Runs (Disk.writeAll output (OutputSet.empty.addAll files)) t report t') :
    (report.written ++ report.unchanged).Perm (files.map (·.path)) := by
  have hset : (OutputSet.empty.addAll files).files = files :=
    OutputSet.files_addAll hnodup
  obtain ⟨t₁, -, hwrite, -⟩ := Disk.runs_writeAll.mp h
  rw [hset] at hwrite
  exact (Disk.paths_of_writeEach hwrite).2.2

/-- A check, a dry run and a run that writes agree about every project. -/
theorem agree (t : Tree) (s : Settings) (config output : Path) : Agree t s config output := by
  have hcheck : (check s config).result t =
      (prepare t s (folderOf config)).map (·.checked config) :=
    congrArg Prod.fst (run_check t s config)
  have hpreview : (generateInto s (folderOf config) output true).result t =
      (prepare t s (folderOf config)).map (·.previewed s) :=
    congrArg Prod.fst (run_preview t s (folderOf config) output)
  cases hprepare : prepare t s (folderOf config) with
  | error e =>
    rw [hprepare] at hcheck hpreview
    have hwrite : (generateInto s (folderOf config) output false).result t = .error e := by
      rw [Run.result, run_write, hprepare]
    constructor
    · rw [hcheck, hpreview]
      constructor <;> rintro ⟨r, hr⟩ <;> cases hr
    · intro e'
      rw [hcheck, hpreview]
      constructor <;>
      · intro he
        cases he
        rfl
    · rw [hcheck]
      rintro r r' ⟨⟩
    · rw [hwrite]
      rintro r ⟨⟩
  | ok p =>
    rw [hprepare] at hcheck hpreview
    constructor
    · rw [hcheck, hpreview]
      exact ⟨fun _ => ⟨_, rfl⟩, fun _ => ⟨_, rfl⟩⟩
    · intro e
      rw [hcheck, hpreview]
      constructor <;> exact fun he => by cases he
    · rw [hcheck, hpreview]
      rintro r r' ⟨⟩ ⟨⟩
      exact ⟨outputFiles p.generation, rfl, List.length_map _, List.length_map _ |>.symm⟩
    · intro r hr
      rw [Run.result, run_write, hprepare] at hr
      dsimp only at hr
      split at hr
      · cases hr
      · rename_i report t' hrun
        cases hr
        have hnodup := nodup_outputFiles hprepare
        have hperm := perm_paths hnodup hrun
        exact ⟨p.previewed s, outputFiles p.generation, report, hpreview, rfl, rfl, rfl, hperm,
          hperm.nodup_iff.mpr hnodup⟩

/-- Only a generation that has been prepared successfully writes, and checks, dry runs and runs
agree. -/
theorem runs_agree (t : Tree) (s : Settings) :
    (∀ config, (check s config).leaves t = t) ∧
    (∀ folder output, (generateInto s folder output true).leaves t = t) ∧
    (∀ folder output dry e, (generateInto s folder output dry).result t = .error e →
      e.BeforeWriting → (generateInto s folder output dry).leaves t = t) ∧
    ∀ config output, Agree t s config output := by
  refine ⟨fun config => congrArg Prod.snd (run_check t s config),
    fun folder output => congrArg Prod.snd (run_preview t s folder output),
    fun folder output dry e he hbefore => ?_, fun config output => agree t s config output⟩
  cases dry with
  | true => exact congrArg Prod.snd (run_preview t s folder output)
  | false =>
    rw [Run.result, run_write] at he
    rw [Run.leaves, run_write]
    split at he
    · rfl
    · split at he
      · cases he
        exact hbefore.elim
      · cases he

/-- The text of a model document with one record. -/
def userText : String :=
  "\x7b\"definitions\": [\x7b\"kind\": \"complex\", \"name\": \"User\", \"members\": []\x7d]\x7d"

/-- The model document. -/
def userDocument : Document.ModelDocument := ⟨[], [.complex ⟨"User", none, [], none, []⟩]⟩

/-- The model of this document. -/
def userModel : Document.LoadedModel :=
  ⟨⟨#[some (.complex ⟨"User", none, [], none, []⟩)]⟩, [], [("User", 0)]⟩

/-- A project with the document and an output folder with nothing in it. -/
def userProject : Tree := ⟨[], [(["model.json"], .file (.text userText)), (["out"], .folder)]⟩

/-- The settings of the project. -/
def userSettings : Settings := { model := ⟨"model.json"⟩, output := ⟨"out"⟩ }

/-- The only file that is generated for the project. -/
def userFile : OutputFile :=
  ⟨"user.ts", "/* eslint-disable */\n// contractgen: generated content, do not edit\n" ++
    "export type User = \x7b\x7d;\n"⟩

/-- What is generated for the project. -/
def userGeneration : Generation :=
  ⟨[⟨0, "User", ⟨"User", none, []⟩, ⟨.alias "User" [] (.object []), []⟩⟩],
    [⟨userFile.path, [0], userFile.content⟩]⟩

/-- The project can be prepared. -/
theorem prepare_user : prepare userProject userSettings ⟨""⟩ = .ok ⟨1, userGeneration⟩ := by
  have hmodel : userProject.locate true ⟨"model.json"⟩ = .taken ["model.json"] :=
    Tree.locate_eq_of_walkWithin 4 (by decide +kernel)
  have hpath : userSettings.modelPath ⟨""⟩ = ⟨"model.json"⟩ := by decide +kernel
  have hwalk : Walk.walk ⟨userSettings.options, fun _ => none⟩ .empty userModel.model [0] =
      .ok userGeneration.units := by decide +kernel
  have hfiles : Plan.files userSettings.options userGeneration.units = userGeneration.files := by
    decide +kernel
  refine prepare_eq_ok_iff.mpr ⟨userText, userDocument, userModel, [0], ?_, rfl, rfl, rfl, ?_, rfl⟩
  · rw [hpath]
    exact Tree.text?_eq hmodel rfl
  · rw [generate, hwalk]
    exact congrArg (fun files => Except.ok (Generation.mk userGeneration.units files)) hfiles

/-- The project after its file has been written. -/
def userWritten : Tree := userProject.put ["out", "user.ts"] (.file (.text userFile.content))

/-- Writing the file of the project. -/
theorem runs_user :
    Disk.Runs (Disk.writeAll ⟨"out"⟩ ⟨[userFile]⟩) userProject ⟨["user.ts"], [], []⟩
      userWritten := by
  have hfolder : userProject.locate true ⟨"out"⟩ = .taken ["out"] :=
    Tree.locate_eq_of_walkWithin 4 (by decide +kernel)
  have hfile : userProject.locate true ⟨"out/user.ts"⟩ = .free ["out", "user.ts"] false :=
    Tree.locate_eq_of_walkWithin 4 (by decide +kernel)
  have hstale : Disk.stale userProject ⟨"out"⟩ ⟨[userFile]⟩ = [] := by
    rw [Disk.stale, Tree.generated, Tree.reachable, hfolder]
    decide +kernel
  have hfull : userFile.fullPath ⟨"out"⟩ = ⟨"out/user.ts"⟩ := by decide +kernel
  refine Disk.runs_writeAll_single hstale hfull ?_
    (Disk.runs_write_of_isFolder ⟨"out"⟩ (by decide +kernel) (fun _ => by decide +kernel) ?_ ?_)
  · rw [Tree.text?, Tree.get?, hfile]
    decide +kernel
  · have hfolders : ⟨"out"⟩ :: Path.ancestors ⟨"out"⟩ = [(⟨"out"⟩ : Path), ⟨""⟩] := by
      decide +kernel
    simpa [hfolders] using Tree.isFolder_of_locate hfolder rfl
  · rw [Tree.withFile?, hfile]
    rfl

/-- The run on this project writes its file, and the check and the dry run agree with it. -/
theorem runs_agree_user :
    (generateInto userSettings (folderOf ⟨"contract.toml"⟩) ⟨"out"⟩ false).run.run userProject =
      (.ok ⟨⟨"model.json"⟩, 1, .written ⟨"out"⟩ ⟨["user.ts"], [], []⟩⟩, userWritten) ∧
    Agree userProject userSettings ⟨"contract.toml"⟩ ⟨"out"⟩ := by
  have hfolder : folderOf ⟨"contract.toml"⟩ = ⟨""⟩ := by decide +kernel
  have hrun : (Disk.writeAll ⟨"out"⟩
      (OutputSet.empty.addAll (outputFiles userGeneration))).run.run userProject =
        (.ok ⟨["user.ts"], [], []⟩, userWritten) := runs_user
  refine ⟨?_, (runs_agree userProject userSettings).2.2.2 _ _⟩
  rw [hfolder, run_write, prepare_user]
  dsimp only
  rw [hrun]
  rfl

end Declgen.Project
