import Mathlib.Logic.Relation
import ParserRelay.Proofs.FileSystem.Frame
import ParserRelay.Proofs.Run.NormalEnd
/-!
# The life of a process

A run goes through stages with its process: the request is written and flushed, the input closed, and
the exit awaited. Where it leaves a stage with a failure, the process is stopped behind it. What each
step keeps is shown once, and from it what every run leaves behind.
-/
namespace ParserRelay

namespace Child

variable {c d : Child}

theorem eq_of_wait_some {n : Int} (h : c.wait = (d, some n)) : d = { c with exit := some n } := by
  obtain ⟨script, exit, written, closed, killed⟩ := c
  cases exit with
  | some m =>
    cases h
    rfl
  | none =>
    unfold wait at h
    simp only at h
    split at h
    · cases h
      rfl
    · split at h
      · cases h
      · cases h
        rfl

theorem eq_of_wait_none (h : c.wait = (d, none)) : d = c ∧ c.exit = none := by
  unfold wait at h
  split at h
  · cases h
  rename_i he
  split at h
  · cases h
  split at h
  · cases h
    exact ⟨rfl, he⟩
  · cases h

theorem stop_eq (c : Child) : c.stop =
    { c with exit := some (c.exit.getD killedCode), killed := c.killed || c.exit.isNone } := by
  obtain ⟨script, exit, written, closed, killed⟩ := c
  cases exit with
  | some n => simp [stop]
  | none => simp [stop, wait]

theorem flush_keeps (c : Child) : c.flush.1.written = c.written ∧ c.flush.1.killed = c.killed := by
  unfold flush
  split
  · exact ⟨rfl, rfl⟩
  · split <;> exact ⟨rfl, rfl⟩

end Child

namespace Run

/-- Where a run stands towards its process. A stage that is left with a failure is left at once:
nothing has been done yet about the process. -/
inductive Stage
  | started
  | written
  | flushed (fault : Option DeliveryFault)
  | waiting
  | left (failure : Option Failure)

inductive Moves (job : Job) (content : Bytes) : Stage × Child → Stage × Child → Prop
  | write (c : Child) :
      job.requestPath = none → Moves job content (.started, c) (.written, c.write content)
  | filed {p : Path} (c : Child) :
      job.requestPath = some p → Moves job content (.started, c) (.waiting, c)
  | flush (c : Child) : Moves job content (.written, c) (.flushed c.flush.2, c.flush.1)
  | taken {fault : Option DeliveryFault} (c : Child) :
      deliveryFailure? fault = none → Moves job content (.flushed fault, c) (.waiting, c.closeInput)
  | refused {fault : Option DeliveryFault} {e : Failure} (c : Child) :
      deliveryFailure? fault = some e →
      Moves job content (.flushed fault, c) (.left (some e), c.closeInput)
  | exited {c d : Child} {code : Int} :
      c.wait = (d, some code) → Moves job content (.waiting, c) (.left none, d)
  | cancelled {c d : Child} :
      c.wait = (d, none) → Moves job content (.waiting, c) (.left (some .cancelled), d)

abbrev Reaches (job : Job) (content : Bytes) : Stage × Child → Stage × Child → Prop :=
  Relation.ReflTransGen (Moves job content)

variable {files : FileSystem} {limit : Int} {job : Job} {content : Bytes} {s : Script} {c d : Child}
  {t : Text}

/-- The request was given to the process in full and its input closed, or it is in a file and the
input was not touched. -/
structure Served (job : Job) (content : Bytes) (c : Child) : Prop where
  piped : job.requestPath = none → c.written = [content] ∧ c.inputClosed = true
  filed : ∀ p, job.requestPath = some p → c.written = [] ∧ c.inputClosed = false

/-- What has come of the input of a process by a stage. -/
def Fed (job : Job) (content : Bytes) : Stage → Child → Prop
  | .started, c => c.written = [] ∧ c.inputClosed = false
  | .written, c => job.requestPath = none ∧ c.written = [content]
  | .flushed _, c => job.requestPath = none ∧ c.written = [content]
  | .waiting, c => Served job content c
  | .left _, c => Served job content c

structure Attends (job : Job) (content : Bytes) (x : Stage × Child) : Prop where
  alive : x.2.killed = false
  fed : Fed job content x.1 x.2
  exited : x.1 = .left none → x.2.exit.isSome

theorem attends_start (job : Job) (content : Bytes) (s : Script) :
    Attends job content (.started, .start s) :=
  ⟨rfl, ⟨rfl, rfl⟩, fun h => by cases h⟩

theorem Served.close (hp : job.requestPath = none) (hw : c.written = [content]) :
    Served job content c.closeInput := by
  refine ⟨fun _ => ⟨hw, rfl⟩, fun p hp' => ?_⟩
  rw [hp] at hp'
  cases hp'

theorem Served.with_exit (h : Served job content c) (code : Option Int) :
    Served job content { c with exit := code } := ⟨h.piped, h.filed⟩

theorem Moves.attends {x y : Stage × Child} (hm : Moves job content x y)
    (h : Attends job content x) : Attends job content y := by
  obtain ⟨ha, hf, -⟩ := h
  cases hm with
  | write c hp =>
    obtain ⟨hw, -⟩ := hf
    refine ⟨ha, ⟨hp, ?_⟩, fun h => by cases h⟩
    rw [Child.write, hw, List.nil_append]
  | @filed p c hp =>
    refine ⟨ha, ⟨fun hn => ?_, fun _ _ => hf⟩, fun h => by cases h⟩
    rw [hp] at hn
    cases hn
  | flush c =>
    obtain ⟨hw, hk⟩ := c.flush_keeps
    exact ⟨hk.trans ha, ⟨hf.1, hw.trans hf.2⟩, fun h => by cases h⟩
  | taken c hd => exact ⟨ha, Served.close hf.1 hf.2, fun h => by cases h⟩
  | refused c hd => exact ⟨ha, Served.close hf.1 hf.2, fun h => by cases h⟩
  | @exited c d code hw =>
    rw [Child.eq_of_wait_some hw]
    exact ⟨ha, Served.with_exit hf _, fun _ => rfl⟩
  | @cancelled c d hw =>
    rw [(Child.eq_of_wait_none hw).1]
    exact ⟨ha, hf, fun h => by cases h⟩

theorem Reaches.attends {x y : Stage × Child} (hr : Reaches job content x y)
    (h : Attends job content x) : Attends job content y := by
  induction hr with
  | refl => exact h
  | tail _ hm ih => exact hm.attends ih

/-- What has become of a process that a run left: unless it has exited it is stopped, and a failure
to attend to it is the result. -/
structure Leaves (a : Attended) (failure : Option Failure) (d : Child) : Prop where
  child : a.child = d.stop
  result : ∀ e, a.result = .error e ↔ failure = some e

theorem stop_of_exit (h : c.exit.isSome) : c.stop = c := if_pos h

theorem await_leaves (limit : Int) (job : Job) (content : Bytes) (c : Child) : ∃ failure d,
    Moves job content (.waiting, c) (.left failure, d) ∧ Leaves (await limit job c) failure d := by
  unfold await
  split
  · rename_i d hw
    refine ⟨some .cancelled, d, .cancelled hw, rfl, fun e => ?_⟩
    simp
  · rename_i d code hw
    have hd : d.stop = d := by
      rw [Child.eq_of_wait_some hw]
      exact stop_of_exit rfl
    exact ⟨none, d, .exited hw, hd.symm, fun e => by simp⟩

theorem attend_leaves (limit : Int) (job : Job) (content : Bytes) (c : Child) : ∃ failure d,
    Reaches job content (.started, c) (.left failure, d) ∧
      Leaves (attend limit job content c) failure d := by
  cases hp : job.requestPath with
  | some p =>
    obtain ⟨failure, d, hm, hl⟩ := await_leaves limit job content c
    refine ⟨failure, d, .head (.filed c hp) (.single hm), ?_⟩
    rwa [attend, if_pos (by rw [hp]; rfl)]
  | none =>
    have hflushed : Reaches job content (.started, c)
        (.flushed (deliver c content).2, (c.write content).flush.1) :=
      .tail (.single (.write c hp)) (.flush _)
    rw [attend, if_neg (by simp [hp])]
    simp only
    split
    · rename_i e he
      refine ⟨some e, (deliver c content).1, hflushed.tail (.refused _ he), rfl, fun e' => ?_⟩
      simp
    · rename_i he
      obtain ⟨failure, d, hm, hl⟩ := await_leaves limit job content (deliver c content).1
      exact ⟨failure, d, (hflushed.tail (.taken _ he)).tail hm, hl.child, hl.result⟩

theorem attend_result_of_run {sp : Spawn} {out : Outcome} (ha : Asks files limit job s t sp)
    (h : (run files limit job s).result = .ok out) :
    ∃ x, (attend limit job (Text.toUtf8 t) (.start s)).result = .ok x := by
  rw [run_eq files limit s ha.command ha.rendered] at h
  have hg := result_of_cleanUp h
  rw [guarded_of_ready ha.ready, execute] at hg
  simp only at hg
  split at hg
  · cases hg
  · cases hr : (attend limit job (Text.toUtf8 t) (.start s)).result with
    | ok x => exact ⟨x, rfl⟩
    | error e => simp [hr, Except.map] at hg

theorem left_of_child {sp : Spawn} (ha : Asks files limit job s t sp)
    (hc : c = (attend limit job (Text.toUtf8 t) (.start s)).child) :
    ∃ failure d, Reaches job (Text.toUtf8 t) (.started, .start s) (.left failure, d) ∧
      Attends job (Text.toUtf8 t) (.left failure, d) ∧ c = d.stop ∧
      (failure ≠ none → ∃ e, (run files limit job s).result = .error e) := by
  obtain ⟨failure, d, hreach, hl⟩ := attend_leaves limit job (Text.toUtf8 t) (.start s)
  refine ⟨failure, d, hreach, hreach.attends (attends_start job _ s), hc.trans hl.child, ?_⟩
  intro hf
  obtain ⟨e, he⟩ := Option.ne_none_iff_exists'.mp hf
  cases hrun : (run files limit job s).result with
  | error e' => exact ⟨e', rfl⟩
  | ok out =>
    obtain ⟨x, hx⟩ := attend_result_of_run ha hrun
    rw [(hl.result e).mpr he] at hx
    cases hx

/-- However a run ends, the process that it asked for has ended: by itself, or killed where the run
was left with a failure before. -/
theorem run_leaves_no_process (files : FileSystem) (limit : Int) (job : Job) (s : Script)
    (hr : job.request.render = .ok t) :
    ((run files limit job s).spawn.isSome = true ↔
      Text.words job.command ≠ [] ∧ Ready files job (Text.toUtf8 t)) ∧
    ((run files limit job s).child.isSome = true ↔
      (run files limit job s).spawn.isSome = true ∧ s.startFault = none) ∧
    ∀ c, (run files limit job s).child = some c →
      c.exit.isSome = true ∧
      (∃ failure d, Reaches job (Text.toUtf8 t) (.started, .start s) (.left failure, d) ∧
        c = d.stop ∧
        (failure ≠ none → ∃ e, (run files limit job s).result = .error e) ∧
        (c.killed = true ↔ (∃ e, (run files limit job s).result = .error e) ∧ d.exit = none)) ∧
      (∀ out, (run files limit job s).result = .ok out → c.killed = false) ∧
      (job.requestPath = none → c.inputClosed = true ∧
        (s.flushFault = some .brokenPipe ∨ s.flushFault = some .connectionReset →
          (run files limit job s).result = if outlasts s then .error .cancelled
            else .ok (outcome (Text.words job.command) s s.exitCode
              (hear limit job.logger s.stderr).1))) := by
  refine ⟨spawn_isSome_iff hr, child_isSome_iff, fun c hc => ?_⟩
  obtain ⟨u, sp, ha, hchild⟩ := asks_of_child hc
  cases hr.symm.trans ha.rendered
  obtain ⟨failure, d, hreach, hd, rfl, hfail⟩ := left_of_child ha hchild
  have hstart : s.startFault = none := (child_isSome_iff.mp (Option.isSome_of_eq_some hc)).2
  have hkilled : d.stop.killed = true ↔
      (∃ e, (run files limit job s).result = .error e) ∧ d.exit = none := by
    rw [Child.stop_eq, hd.alive, Bool.false_or, Option.isNone_iff_eq_none]
    refine ⟨fun he => ⟨hfail ?_, he⟩, And.right⟩
    rintro rfl
    have hx : d.exit.isSome := hd.exited rfl
    rw [he] at hx
    cases hx
  refine ⟨?_, ⟨failure, d, hreach, rfl, hfail, hkilled⟩, fun out ho => ?_, fun hp => ⟨?_, ?_⟩⟩
  · rw [Child.stop_eq]
    rfl
  · rw [← Bool.not_eq_true, hkilled]
    rintro ⟨⟨e, he⟩, -⟩
    rw [ho] at he
    cases he
  · rw [Child.stop_eq]
    exact (hd.fed.piped hp).2
  · intro hf
    apply result_of_delivery ha.command hr hp hstart
    rcases hf with hf | hf <;> rw [hf] <;> rfl

def stubborn : Script := ⟨[], [], 0, none, some .connectionReset, false, true⟩

def pipedJob : Job :=
  ⟨.ofString "parse", .ofString "/", ⟨.create, []⟩, none, Log.parser, .whole 0, .whole 0⟩

theorem stubborn_run_leaves_no_process :
    pipedJob.request.render = .ok "\x7b\"mode\":\"CREATE\"\x7d".toList ∧
    ∃ c, (run .empty 64 pipedJob stubborn).child = some c ∧ c.exit.isSome = true ∧
      c.inputClosed = true := by
  have hr : pipedJob.request.render = .ok "\x7b\"mode\":\"CREATE\"\x7d".toList := by rfl
  obtain ⟨hspawn, hchild, hleft⟩ := run_leaves_no_process .empty 64 pipedJob stubborn hr
  have hready : Ready .empty pipedJob (Text.toUtf8 "\x7b\"mode\":\"CREATE\"\x7d".toList) := by
    intro p hp
    cases hp
  obtain ⟨c, hc⟩ := Option.isSome_iff_exists.mp
    (hchild.mpr ⟨hspawn.mpr ⟨by decide, hready⟩, rfl⟩)
  obtain ⟨hexit, -, -, hpiped⟩ := hleft c hc
  exact ⟨hr, c, hc, hexit, (hpiped rfl).1⟩

end Run
end ParserRelay
