import ParserRelay.Run.Basic
/-!
# Runs that ask for a process

A run asks for its process once the command has a word, the request has a written form and the file
for it, if there is to be one, has been written. What is asked for is then settled, and what becomes
of the process is what attending to it leaves.
-/
namespace ParserRelay.Run

variable {files : FileSystem} {limit : Int} {job : Job} {s : Script} {args : List WideText}
  {content : Bytes} {t : Text} {sp : Spawn}

theorem run_eq (files : FileSystem) (limit : Int) (s : Script)
    (hc : Text.words job.command ≠ []) (hr : job.request.render = .ok t) :
    run files limit job s = { cleanUp job.requestPath
      (guarded files limit job (Text.words job.command) (Text.toUtf8 t) s) with
        log := (run files limit job s).log } := by
  unfold run
  split
  · rename_i hw
    exact absurd hw hc
  · rw [hr]
    simp only
    split <;> rfl

theorem run_of_no_command (hc : Text.words job.command = []) :
    run files limit job s = .refused files .emptyCommand := by
  unfold run
  rw [hc]

theorem run_of_unwritable {cause : Json.Unwritable} (hc : Text.words job.command ≠ [])
    (hr : job.request.render = .error cause) :
    run files limit job s = .refused files (.unwritableRequest cause) := by
  unfold run
  split
  · rename_i hw
    exact absurd hw hc
  · rw [hr]

theorem cleanUp_keeps (p : Option Path) (r : Report) :
    (cleanUp p r).spawn = r.spawn ∧ (cleanUp p r).child = r.child := by
  unfold cleanUp
  split
  · exact ⟨rfl, rfl⟩
  · simp only
    split <;> exact ⟨rfl, rfl⟩

/-- The file for the request, if there is to be one, could be written. -/
def Ready (files : FileSystem) (job : Job) (content : Bytes) : Prop :=
  ∀ p, job.requestPath = some p → (prepare files p content).failure = none

def prepared (files : FileSystem) (job : Job) (content : Bytes) : FileSystem :=
  match job.requestPath with
  | none => files
  | some p => (prepare files p content).after

def askedFor (files : FileSystem) (limit : Int) (job : Job) (args : List WideText) : Spawn :=
  ⟨args, job.cwd, if job.requestPath.isSome then .null else .pipe, limit, files⟩

theorem execute_asks : (execute files limit job args content s).spawn =
    some (askedFor files limit job args) := by
  unfold execute
  simp only
  split <;> rfl

theorem execute_child : (execute files limit job args content s).child =
    if s.startFault = none then some (attend limit job content (.start s)).child else none := by
  unfold execute
  cases hs : s.startFault <;> rfl

theorem guarded_of_ready (h : Ready files job content) : guarded files limit job args content s =
    execute (prepared files job content) limit job args content s := by
  unfold guarded prepared
  cases hp : job.requestPath with
  | none => rfl
  | some p => simp only [h p hp]

theorem guarded_of_not_ready (h : ¬ Ready files job content) :
    (guarded files limit job args content s).spawn = none ∧
      (guarded files limit job args content s).child = none := by
  unfold guarded
  cases hp : job.requestPath with
  | none => exact absurd (fun p hp' => by rw [hp] at hp'; cases hp') h
  | some p =>
    cases hf : (prepare files p content).failure with
    | some e => simp only [hf, and_self]
    | none =>
      refine absurd (fun q hq => ?_) h
      rw [hp] at hq
      cases hq
      exact hf

/-- What a run that asks for a process has found, and what it asks for. -/
structure Asks (files : FileSystem) (limit : Int) (job : Job) (s : Script) (t : Text) (sp : Spawn) :
    Prop where
  command : Text.words job.command ≠ []
  rendered : job.request.render = .ok t
  ready : Ready files job (Text.toUtf8 t)
  spawn : sp = askedFor (prepared files job (Text.toUtf8 t)) limit job (Text.words job.command)
  child : (run files limit job s).child = if s.startFault = none
    then some (attend limit job (Text.toUtf8 t) (.start s)).child else none

theorem asks_of_spawn (h : (run files limit job s).spawn = some sp) :
    ∃ t, Asks files limit job s t sp := by
  by_cases hc : Text.words job.command = []
  · rw [run_of_no_command hc] at h
    cases h
  cases hr : job.request.render with
  | error cause =>
    rw [run_of_unwritable hc hr] at h
    cases h
  | ok t =>
    have hrun := run_eq files limit s hc hr
    obtain ⟨hspawn, hchild⟩ := cleanUp_keeps job.requestPath
      (guarded files limit job (Text.words job.command) (Text.toUtf8 t) s)
    rw [hrun] at h
    have hg := hspawn.symm.trans h
    by_cases hready : Ready files job (Text.toUtf8 t)
    · rw [guarded_of_ready hready] at hg hchild
      rw [execute_asks] at hg
      cases hg
      refine ⟨t, hc, hr, hready, rfl, ?_⟩
      rw [hrun, ← execute_child, ← hchild, guarded_of_ready hready]
    · rw [(guarded_of_not_ready hready).1] at hg
      cases hg

theorem spawn_of_ready (hc : Text.words job.command ≠ []) (hr : job.request.render = .ok t)
    (h : Ready files job (Text.toUtf8 t)) : (run files limit job s).spawn =
      some (askedFor (prepared files job (Text.toUtf8 t)) limit job (Text.words job.command)) := by
  have hrun := run_eq files limit s hc hr
  obtain ⟨hspawn, -⟩ := cleanUp_keeps job.requestPath
    (guarded files limit job (Text.words job.command) (Text.toUtf8 t) s)
  rw [hrun]
  refine hspawn.trans ?_
  rw [guarded_of_ready h, execute_asks]

theorem child_of_no_spawn (h : (run files limit job s).spawn = none) :
    (run files limit job s).child = none := by
  by_cases hc : Text.words job.command = []
  · rw [run_of_no_command hc]
    rfl
  cases hr : job.request.render with
  | error cause =>
    rw [run_of_unwritable hc hr]
    rfl
  | ok t =>
    by_cases hready : Ready files job (Text.toUtf8 t)
    · rw [spawn_of_ready hc hr hready] at h
      cases h
    · rw [run_eq files limit s hc hr]
      exact (cleanUp_keeps _ _).2.trans (guarded_of_not_ready hready).2

theorem spawn_isSome_iff (hr : job.request.render = .ok t) :
    (run files limit job s).spawn.isSome = true ↔
      Text.words job.command ≠ [] ∧ Ready files job (Text.toUtf8 t) := by
  constructor
  · intro h
    obtain ⟨sp, hs⟩ := Option.isSome_iff_exists.mp h
    obtain ⟨u, ha⟩ := asks_of_spawn hs
    cases hr.symm.trans ha.rendered
    exact ⟨ha.command, ha.ready⟩
  · rintro ⟨hc, hready⟩
    rw [spawn_of_ready hc hr hready]
    rfl

theorem child_isSome_iff : (run files limit job s).child.isSome = true ↔
    (run files limit job s).spawn.isSome = true ∧ s.startFault = none := by
  cases hs : (run files limit job s).spawn with
  | none => simp [child_of_no_spawn hs]
  | some sp =>
    obtain ⟨t, ha⟩ := asks_of_spawn hs
    rw [ha.child]
    split <;> simp_all

theorem asks_of_child {c : Child} (h : (run files limit job s).child = some c) :
    ∃ t sp, Asks files limit job s t sp ∧ c = (attend limit job (Text.toUtf8 t) (.start s)).child := by
  obtain ⟨hs, hstart⟩ := child_isSome_iff.mp (Option.isSome_of_eq_some h)
  obtain ⟨sp, hs⟩ := Option.isSome_iff_exists.mp hs
  obtain ⟨t, ha⟩ := asks_of_spawn hs
  refine ⟨t, sp, ha, ?_⟩
  rw [ha.child, if_pos hstart] at h
  exact (Option.some.inj h).symm

end ParserRelay.Run
