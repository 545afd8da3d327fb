import ParserRelay.Proofs.FileSystem.Growth
import ParserRelay.Proofs.Run.Asked
/-!
# The life of a request file

The process of a run is modelled without effects on the files, so a tree changes by the directories
above the request file, the file and its removal. However the run ends, only the directories are
left of these.
-/
namespace ParserRelay.Run
open FileSystem

variable {files : FileSystem} {limit : Int} {job : Job} {s : Script} {p : Path} {t : Text}

theorem files_execute (args : List WideText) (content : Bytes) :
    (execute files limit job args content s).files = files := by
  unfold execute
  simp only
  split <;> rfl

theorem files_run (hc : Text.words job.command ≠ []) (hr : job.request.render = .ok t) :
    (run files limit job s).files = (cleanUp job.requestPath
      (guarded files limit job (Text.words job.command) (Text.toUtf8 t) s)).files := by
  rw [run_eq files limit s hc hr]

theorem files_run_of_no_path (hp : job.requestPath = none) :
    (run files limit job s).files = files := by
  by_cases hc : Text.words job.command = []
  · rw [run_of_no_command hc]
    rfl
  · cases hr : job.request.render with
    | error cause =>
      rw [run_of_unwritable hc hr]
      rfl
    | ok t =>
      rw [files_run hc hr, hp]
      simp only [cleanUp, guarded, hp]
      exact files_execute _ _

theorem prepare_of_failed_directories {content : Bytes} {e : FileError}
    (h : (files.makeDirectories p.parent).failure = some e) :
    prepare files p content = ⟨(files.makeDirectories p.parent).after, some e⟩ := by
  rw [prepare, h]

theorem prepare_of_directories {content : Bytes}
    (h : (files.makeDirectories p.parent).failure = none) :
    prepare files p content = (files.makeDirectories p.parent).after.write p content := by
  rw [prepare, h]

theorem makeDirectories_of_prepare {content : Bytes} (h : (prepare files p content).failure = none) :
    (files.makeDirectories p.parent).failure = none := by
  cases hd : (files.makeDirectories p.parent).failure with
  | none => rfl
  | some e =>
    rw [prepare_of_failed_directories hd] at h
    cases h

theorem prepare_cases {content : Bytes} (h : (prepare files p content).failure = none) :
    ((files.makeDirectories p.parent).after.write p content).failure = none ∧
      (prepare files p content).after =
        ((files.makeDirectories p.parent).after.write p content).after := by
  have hprepare : prepare files p content = _ := prepare_of_directories (makeDirectories_of_prepare h)
  rw [hprepare] at h ⊢
  exact ⟨h, rfl⟩

theorem files_run_of_discard {fs : FileSystem} (hc : Text.words job.command ≠ [])
    (hr : job.request.render = .ok t) (hp : job.requestPath = some p)
    (hw : (prepare files p (Text.toUtf8 t)).failure = none)
    (hd : (prepare files p (Text.toUtf8 t)).after.discard p = ⟨fs, none⟩) :
    (run files limit job s).files = fs := by
  rw [files_run hc hr, hp]
  simp only [cleanUp, guarded, hp, hw, files_execute, hd]

/-- The request of a job is written to a file, and where it is written there is no link. Whether
there is one shows only behind the directories that are made first: double dots may lead through
them. -/
structure WrittenTo (files : FileSystem) (job : Job) (p : Path) : Prop where
  command : Text.words job.command ≠ []
  path : job.requestPath = some p
  written : ∃ t, job.request.render = .ok t ∧ (prepare files p (Text.toUtf8 t)).failure = none
  no_link : (files.makeDirectories p.parent).after.linkTarget? p = none

/-- However a run ends, nothing is left at the path of its request file, and the rest of the tree is
as before but for directories on the way to that path. Without such a path the tree is the same. -/
theorem run_leaves_no_request_file (files : FileSystem) (limit : Int) (job : Job) (s : Script) :
    (job.requestPath = none → (run files limit job s).files = files) ∧
      ∀ p, WrittenTo files job p → ∃ l, Replaceable (files.node? l) ∧
        (run files limit job s).files.locate .itself p = .ok ⟨l, none⟩ ∧
        (run files limit job s).files.here = files.here ∧
        ∀ m, m ≠ l → (run files limit job s).files.node? m = files.node? m ∨
          files.node? m = none ∧ OnTheWay (run files limit job s).files p.parent m := by
  refine ⟨files_run_of_no_path, fun p h => ?_⟩
  obtain ⟨t, hr, hf⟩ := h.written
  obtain ⟨hw, ha⟩ := prepare_cases hf
  have hgrown := grown_makeDirectories files p.parent
  obtain ⟨l, fs, hd, hchanged, hl⟩ := discard_write hw h.no_link
  rw [files_run_of_discard h.command hr h.path hf (ha ▸ hd)]
  have hbefore : Replaceable (files.node? l) := by
    rcases hgrown.view l with he | ⟨hn, -⟩
    · rw [← he]
      exact hchanged.replaceable
    · intro y hy
      rw [hn] at hy
      cases hy
  refine ⟨l, hbefore, hl, hchanged.here.trans hgrown.here, ?_⟩
  intro m hm
  rw [hchanged.frame m hm]
  rcases hgrown.view m with he | ⟨hn, hway⟩
  · exact .inl he
  · exact .inr ⟨hn, hway.keeps hchanged.here hchanged.keeps⟩

def linkedFiles : FileSystem where
  root := [(.ofString "w", .folder [(.ofString "old.json", .file [0x7B, 0x7D]),
    (.ofString "up", .link (.ofString ".."))])]
  here := [.ofString "w"]
  here_plain := by decide
  here_directory := rfl

def linkedPath : Path := .ofText (.ofString "up/w/new/in.json")

def linkedJob : Job :=
  ⟨.ofString "parse", .ofString "w", ⟨.create, []⟩, some linkedPath, Log.parser, .whole 0, .whole 0⟩

def hanging : Script := ⟨[], [], 0, none, none, false, true⟩

theorem linked_run_leaves_no_request_file : WrittenTo linkedFiles linkedJob linkedPath ∧
    ∃ l, (run linkedFiles 64 linkedJob hanging).files.locate .itself linkedPath = .ok ⟨l, none⟩ := by
  have hr : linkedJob.request.render = .ok "\x7b\"mode\":\"CREATE\"\x7d".toList := by rfl
  have hw : WrittenTo linkedFiles linkedJob linkedPath :=
    ⟨by decide, rfl, ⟨_, hr, by decide +kernel⟩, by decide +kernel⟩
  obtain ⟨-, hrun⟩ := run_leaves_no_request_file linkedFiles 64 linkedJob hanging
  obtain ⟨l, -, hl, -⟩ := hrun linkedPath hw
  exact ⟨hw, l, hl⟩

end ParserRelay.Run
