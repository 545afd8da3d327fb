import ParserRelay.Proofs.FileSystem.Refusal
import ParserRelay.Proofs.Run.Exit
/-!
# What a failed run fails with

A run that has a command and a written request fails with what its first failing step gives, and the
removal of the request file adds nothing to that, with one exception: where the directories above the
file cannot be made, the way to it may be blocked for the removal as well, and then the run fails with
that.
-/
namespace ParserRelay.Run
open FileSystem

inductive Step
  | directories
  | writing
  | start
  | delivery
  | waiting
  deriving DecidableEq

/-- A step fails of itself once the steps before it have passed; the removal of the request file is
not looked at. -/
inductive FailsAt (files : FileSystem) (job : Job) (s : Script) (content : Bytes) :
    Step → Failure → Prop
  | directories {p : Path} {e : FileError} : job.requestPath = some p →
      (files.makeDirectories p.parent).failure = some e → FailsAt files job s content .directories (.file e)
  | writing {p : Path} {e : FileError} : job.requestPath = some p →
      (files.makeDirectories p.parent).failure = none →
      ((files.makeDirectories p.parent).after.write p content).failure = some e →
      FailsAt files job s content .writing (.file e)
  | start {kind : Text} {message : WideText} : Ready files job content →
      s.startFault = some (kind, message) → FailsAt files job s content .start (.notStarted kind message)
  | delivery {kind : Text} : Ready files job content → s.startFault = none → job.requestPath = none →
      s.flushFault = some (.other kind) → FailsAt files job s content .delivery (.notDelivered kind)
  | waiting : Ready files job content → s.startFault = none →
      (∀ p, job.requestPath = some p → s.hangs = true) →
      (job.requestPath = none → deliveryFailure? s.flushFault = none ∧ outlasts s = true) →
      FailsAt files job s content .waiting .cancelled

variable {files : FileSystem} {limit : Int} {job : Job} {s : Script} {content : Bytes} {t : Text}
  {p : Path} {e : FileError} {step : Step} {failure : Failure}

theorem result_of_run (hc : Text.words job.command ≠ []) (hr : job.request.render = .ok t) :
    (run files limit job s).result = (cleanUp job.requestPath
      (guarded files limit job (Text.words job.command) (Text.toUtf8 t) s)).result := by
  rw [run_eq files limit s hc hr]

theorem result_of_ready (hc : Text.words job.command ≠ []) (hr : job.request.render = .ok t)
    (h : Ready files job (Text.toUtf8 t)) : (run files limit job s).result =
      (execute (prepared files job (Text.toUtf8 t)) limit job (Text.words job.command)
        (Text.toUtf8 t) s).result := by
  rw [result_of_run hc hr, guarded_of_ready h]
  exact result_cleanUp h (files_execute _ _)

theorem cleanUp_of_failed_preparation (hp : job.requestPath = some p)
    (h : (prepare files p content).failure = some e) (args : List WideText) :
    (cleanUp job.requestPath (guarded files limit job args content s)).result =
      .error (.file (((prepare files p content).after.discard p).failure.getD e)) := by
  rw [hp]
  simp only [guarded, hp, h, cleanUp]
  split
  · rename_i hd
    rw [hd]
    rfl
  · rename_i e' hd
    rw [hd]
    rfl

theorem execute_of_no_start {kind : Text} {message : WideText} (args : List WideText)
    (h : s.startFault = some (kind, message)) :
    (execute files limit job args content s).result = .error (.notStarted kind message) := by
  simp only [execute, h]

theorem execute_of_failed_attendance (args : List WideText) (hs : s.startFault = none)
    (h : (attend limit job content (.start s)).result = .error failure) :
    (execute files limit job args content s).result = .error failure := by
  simp only [execute, hs, h]
  rfl

theorem attend_of_no_delivery {kind : Text} (hp : job.requestPath = none)
    (h : s.flushFault = some (.other kind)) :
    (attend limit job content (.start s)).result = .error (.notDelivered kind) := by
  have hfault : (deliver (.start s) content).2 = some (.other kind) := (flush_fault _).trans h
  simp only [attend, hp, hfault]
  rfl

theorem attend_of_path (hp : job.requestPath = some p) :
    attend limit job content (.start s) = await limit job (.start s) :=
  if_pos (by simp [hp])

theorem attend_of_waiting (hfile : ∀ p, job.requestPath = some p → s.hangs = true)
    (hinput : job.requestPath = none → deliveryFailure? s.flushFault = none ∧ outlasts s = true) :
    (attend limit job content (.start s)).result = .error .cancelled := by
  cases hp : job.requestPath with
  | none =>
    obtain ⟨hd, ho⟩ := hinput hp
    rw [attend_of_delivery hp hd, ho]
    rfl
  | some p =>
    have hwait : (Child.start s).wait.2 = none := by rw [wait_start, hfile p hp, if_pos rfl]
    rw [attend_of_path hp]
    exact await_of_cancelled hwait

theorem FailsAt.result (hc : Text.words job.command ≠ []) (hr : job.request.render = .ok t)
    (h : FailsAt files job s (Text.toUtf8 t) step failure) (hstep : step ≠ .directories) :
    (run files limit job s).result = .error failure := by
  cases h with
  | directories hp hd => exact absurd rfl hstep
  | @writing p e hp hd hw =>
    have hprepare : (prepare files p (Text.toUtf8 t)).failure = some e := by
      rw [prepare_of_directories hd, hw]
    rw [result_of_run hc hr, cleanUp_of_failed_preparation hp hprepare, prepare_of_directories hd,
      after_of_failed_write hw]
    rcases discard_of_failed_write (stat_makeDirectories hd) hw with hnone | hsame
    · rw [hnone]
      rfl
    · rw [hsame]
      rfl
  | start hready hs => rw [result_of_ready hc hr hready, execute_of_no_start _ hs]
  | delivery hready hs hp hf =>
    rw [result_of_ready hc hr hready]
    exact execute_of_failed_attendance _ hs (attend_of_no_delivery hp hf)
  | waiting hready hs hfile hinput =>
    rw [result_of_ready hc hr hready]
    exact execute_of_failed_attendance _ hs (attend_of_waiting hfile hinput)

theorem exists_fault_of_not_ready (h : ¬ Ready files job content) :
    ∃ p e, job.requestPath = some p ∧ (prepare files p content).failure = some e := by
  by_contra hno
  apply h
  intro p hp
  cases hf : (prepare files p content).failure with
  | none => rfl
  | some e => exact absurd ⟨p, e, hp, hf⟩ hno

theorem execute_of_exit (args : List WideText) (hp : job.requestPath = some p)
    (hs : s.startFault = none) (hh : s.hangs = false) :
    ∃ out, (execute files limit job args content s).result = .ok out := by
  have hwait : (Child.start s).wait.2 = some s.exitCode := by rw [wait_start, hh, if_neg (by simp)]
  have hattend : attend limit job content (.start s) = await limit job (.start s) := attend_of_path hp
  simp only [execute, hs, hattend, await_of_wait hwait]
  exact ⟨_, rfl⟩

theorem exists_step_of_failure (hc : Text.words job.command ≠ []) (hr : job.request.render = .ok t)
    (h : (run files limit job s).result = .error failure) :
    ∃ step e, FailsAt files job s (Text.toUtf8 t) step e := by
  by_cases hready : Ready files job (Text.toUtf8 t)
  · cases hs : s.startFault with
    | some fault => exact ⟨_, _, .start hready hs⟩
    | none =>
      cases hp : job.requestPath with
      | some p =>
        cases hh : s.hangs with
        | true => exact ⟨_, _, .waiting hready hs (fun _ _ => hh) fun hnone => by simp [hp] at hnone⟩
        | false =>
          rw [result_of_ready hc hr hready] at h
          obtain ⟨out, hout⟩ := execute_of_exit _ hp hs hh
          cases h.symm.trans hout
      | none =>
        by_cases hother : ∃ kind, s.flushFault = some (.other kind)
        · obtain ⟨kind, hf⟩ := hother
          exact ⟨_, _, .delivery hready hs hp hf⟩
        · have hd : deliveryFailure? s.flushFault = none := by
            unfold deliveryFailure?
            split
            · rename_i kind hf
              exact absurd ⟨kind, hf⟩ hother
            · rfl
          rw [result_of_delivery hc hr hp hs hd] at h
          split at h
          · rename_i ho
            exact ⟨_, _, .waiting hready hs (fun p hsome => by simp [hp] at hsome) fun _ => ⟨hd, ho⟩⟩
          · cases h
  · obtain ⟨p, e, hp, hf⟩ := exists_fault_of_not_ready hready
    cases hd : (files.makeDirectories p.parent).failure with
    | some e => exact ⟨_, _, .directories hp hd⟩
    | none =>
      rw [prepare_of_directories hd] at hf
      exact ⟨_, _, .writing hp hd hf⟩

theorem result_of_failed_directories (hc : Text.words job.command ≠ [])
    (hr : job.request.render = .ok t) (hp : job.requestPath = some p)
    (h : (files.makeDirectories p.parent).failure = some e) : (run files limit job s).result =
      .error (.file (((files.makeDirectories p.parent).after.discard p).failure.getD e)) := by
  have hprepare : prepare files p (Text.toUtf8 t) = ⟨_, some e⟩ := prepare_of_failed_directories h
  have hfailure : (prepare files p (Text.toUtf8 t)).failure = some e := by rw [hprepare]
  rw [result_of_run hc hr, cleanUp_of_failed_preparation hp hfailure, hprepare]

/-- What the removal of the request file makes of the failure to make the directories above it. -/
inductive Uncovers (files : FileSystem) (p : Path) (e : FileError) : FileError → Prop
  | fault {fault : PathFault} : p.fault? = some fault → Uncovers files p e (.unusable fault)
  | missing : p.fault? = none →
      (files.makeDirectories p.parent).after.locate .itself p = .error .noEntry → Uncovers files p e e
  | blocked {refusal : SystemError} : p.fault? = none →
      (files.makeDirectories p.parent).after.locate .itself p = .error refusal → refusal ≠ .noEntry →
      Uncovers files p e (.system refusal p.text)

theorem uncovers_discard (h : (files.makeDirectories p.parent).failure = some e) :
    Uncovers files p e (((files.makeDirectories p.parent).after.discard p).failure.getD e) := by
  cases hf : p.fault? with
  | some fault =>
    rw [discard_of_fault hf]
    exact .fault hf
  | none =>
    obtain ⟨refusal, hl⟩ := refused_of_failed_directories hf h .itself
    rw [discard_of_refused hf hl]
    by_cases hr : refusal = .noEntry
    · subst hr
      exact .missing hf hl
    · rw [if_neg hr]
      exact .blocked hf hl hr

/-- A run fails if and only if one of its steps does. It fails with what that step gives, unless this
is the making of the directories above the request file: that failure stays if the file is just not
there, and gives way to the refusal of the removal if the way to the file is blocked. -/
theorem run_fails_with_step (limit : Int) (hc : Text.words job.command ≠ [])
    (hr : job.request.render = .ok t) :
    (∀ step failure, FailsAt files job s (Text.toUtf8 t) step failure → step ≠ .directories →
      (run files limit job s).result = .error failure) ∧
    (∀ p e, job.requestPath = some p → (files.makeDirectories p.parent).failure = some e →
      ∃ e', Uncovers files p e e' ∧ (run files limit job s).result = .error (.file e')) ∧
    ∀ failure, (run files limit job s).result = .error failure →
      ∃ step e, FailsAt files job s (Text.toUtf8 t) step e :=
  ⟨fun _ _ h hstep => h.result hc hr hstep,
    fun _ _ hp h => ⟨_, uncovers_discard h, result_of_failed_directories hc hr hp h⟩,
    fun _ h => exists_step_of_failure hc hr h⟩

def jobWith (path : String) : Job :=
  ⟨.ofString "parse", .ofString "/", ⟨.create, []⟩, some (.ofText (.ofString path)), Log.parser,
    .whole 0, .whole 0⟩

def createBytes : Bytes := Text.toUtf8 "\x7b\"mode\":\"CREATE\"\x7d".toList

theorem render_jobWith (path : String) :
    (jobWith path).request.render = .ok "\x7b\"mode\":\"CREATE\"\x7d".toList := by rfl

def misledFiles : FileSystem :=
  .atRoot [(.ofString "in.json", .link (.ofString "d")), (.ofString "d", .folder [])]

theorem misled_run_fails_with_writing :
    (run misledFiles 64 (jobWith "in.json") hanging).result =
      .error (.file (.system .isDirectory (.ofString "in.json"))) := by
  obtain ⟨hkept, -⟩ := @run_fails_with_step misledFiles (jobWith "in.json") hanging _ 64 (by decide)
    (render_jobWith "in.json")
  refine hkept .writing _ (.writing rfl ?_ ?_) (by decide)
  · decide +kernel
  · decide +kernel

/-- A file where a directory is needed: it cannot be made, and behind it nothing can be removed. -/
def blockedFiles : FileSystem := .atRoot [(.ofString "data", .file [])]

theorem blocked_way_hides_cause :
    FailsAt blockedFiles (jobWith "data/in.json") hanging createBytes .directories
      (.file (.system .exists (.ofString "data"))) ∧
    (run blockedFiles 64 (jobWith "data/in.json") hanging).result =
      .error (.file (.system .notDirectory (.ofString "data/in.json"))) ∧
    (Failure.file (.system .exists (.ofString "data"))).message ≠
      (Failure.file (.system .notDirectory (.ofString "data/in.json"))).message := by
  have hd : (blockedFiles.makeDirectories (Path.parent (.ofText (.ofString "data/in.json")))).failure =
      some (.system .exists (.ofString "data")) := by decide +kernel
  have hremoval : ((blockedFiles.makeDirectories
      (Path.parent (.ofText (.ofString "data/in.json")))).after.discard
        (.ofText (.ofString "data/in.json"))).failure =
      some (.system .notDirectory (.ofString "data/in.json")) := by decide +kernel
  have hrun : (run blockedFiles 64 (jobWith "data/in.json") hanging).result = _ :=
    result_of_failed_directories (by decide) (render_jobWith _) rfl hd
  rw [hremoval] at hrun
  exact ⟨.directories rfl hd, hrun, by decide +kernel⟩

end ParserRelay.Run
