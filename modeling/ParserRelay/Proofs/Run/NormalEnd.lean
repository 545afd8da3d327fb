import ParserRelay.Proofs.Run.Asked
/-!
# Runs that end normally

A run has an outcome only if its process exited by itself, and then the outcome is what the two
streams of the process hold, whatever was written to its input and whatever the files were.
-/
namespace ParserRelay.Run

theorem script_wait (c : Child) : c.wait.1.script = c.script := by
  unfold Child.wait
  split
  · rfl
  · split
    · rfl
    · split <;> rfl

theorem script_deliver (c : Child) (content : Bytes) : (deliver c content).1.script = c.script := by
  unfold deliver Child.flush
  cases (c.write content).script.flushFault with
  | none => rfl
  | some f => cases he : c.script.exitsEarly <;> simp [he, Child.closeInput, Child.write]

theorem await_result {limit : Int} {job : Job} {c : Child} {code : Int} {heard : Interpreter}
    (h : (await limit job c).result = .ok (code, heard)) :
    heard = (hear limit job.logger c.script.stderr).1 := by
  unfold await at h
  split at h
  · cases h
  · rename_i c' code' hw
    have hs : c'.script = c.script := by
      rw [← script_wait c, hw]
    cases h
    rw [hs]
    rfl

theorem attend_result {limit : Int} {job : Job} {content : Bytes} {c : Child} {code : Int}
    {heard : Interpreter} (h : (attend limit job content c).result = .ok (code, heard)) :
    heard = (hear limit job.logger c.script.stderr).1 := by
  unfold attend at h
  split at h
  · exact await_result h
  · simp only at h
    split at h
    · cases h
    · rw [← script_deliver c content]
      exact await_result h

theorem execute_result {files : FileSystem} {limit : Int} {job : Job} {args : List WideText}
    {content : Bytes} {s : Script} {out : Outcome}
    (h : (execute files limit job args content s).result = .ok out) :
    out = outcome args s out.exitCode (hear limit job.logger s.stderr).1 := by
  unfold execute at h
  simp only at h
  split at h
  · cases h
  · simp only at h
    cases ha : (attend limit job content (.start s)).result with
    | error e => simp [ha, Except.map] at h
    | ok r =>
      obtain ⟨code, heard⟩ := r
      rw [ha] at h
      cases h
      rw [attend_result ha]
      rfl

theorem guarded_result {files : FileSystem} {limit : Int} {job : Job} {args : List WideText}
    {content : Bytes} {s : Script} {out : Outcome}
    (h : (guarded files limit job args content s).result = .ok out) :
    out = outcome args s out.exitCode (hear limit job.logger s.stderr).1 := by
  unfold guarded at h
  split at h
  · exact execute_result h
  · simp only at h
    split at h
    · cases h
    · exact execute_result h

theorem result_of_cleanUp {p : Option Path} {r : Report} {out : Outcome}
    (h : (cleanUp p r).result = .ok out) : r.result = .ok out := by
  unfold cleanUp at h
  split at h
  · exact h
  · simp only at h
    split at h
    · exact h
    · cases h

theorem outcome_of_run {files : FileSystem} {limit : Int} {job : Job} {s : Script} {out : Outcome}
    (h : (run files limit job s).result = .ok out) :
    out = outcome (Text.words job.command) s out.exitCode (hear limit job.logger s.stderr).1 := by
  unfold run at h
  split at h
  · cases h
  · rename_i hw
    split at h
    · cases h
    · simp only at h
      split at h
      · exact guarded_result (result_of_cleanUp h)
      · rename_i he
        rw [he] at h
        cases h

theorem flush_fault (c : Child) : c.flush.2 = c.script.flushFault := by
  unfold Child.flush
  split
  · rename_i h
    exact h.symm
  · rename_i h
    exact h.symm

/-- The process is not seen to exit: it hangs, and was there still when its request was flushed. -/
def outlasts (s : Script) : Bool := s.hangs && !(s.exitsEarly && s.flushFault.isSome)

theorem wait_deliver (s : Script) (content : Bytes) : (deliver (.start s) content).1.wait.2 =
    if outlasts s then none else some s.exitCode := by
  -- Three parts of the script decide whether there is an exit code.
  cases hf : s.flushFault <;> cases he : s.exitsEarly <;> cases hh : s.hangs <;>
    simp [deliver, Child.flush, Child.write, Child.start, Child.closeInput, Child.wait, outlasts,
      hf, he, hh]

theorem await_of_wait {limit : Int} {job : Job} {c : Child} {code : Int}
    (h : c.wait.2 = some code) : (await limit job c).result =
      .ok (code, (hear limit job.logger c.script.stderr).1) := by
  have hr : ∃ x, (await limit job c).result = .ok (code, x) := by
    unfold await
    split
    · rename_i hw
      rw [hw] at h
      cases h
    · rename_i hw
      rw [hw] at h
      cases h
      exact ⟨_, rfl⟩
  obtain ⟨x, hx⟩ := hr
  rw [hx, await_result hx]

theorem await_of_cancelled {limit : Int} {job : Job} {c : Child} (h : c.wait.2 = none) :
    (await limit job c).result = .error .cancelled := by
  unfold await
  split
  · rfl
  · rename_i hw
    rw [hw] at h
    cases h

theorem attend_of_delivery {limit : Int} {job : Job} {s : Script} (hp : job.requestPath = none)
    (hf : deliveryFailure? s.flushFault = none) (content : Bytes) :
    (attend limit job content (.start s)).result = if outlasts s then .error .cancelled
      else .ok (s.exitCode, (hear limit job.logger s.stderr).1) := by
  have hfault : (deliver (.start s) content).2 = s.flushFault := flush_fault _
  have hattend : (attend limit job content (.start s)).result =
      (await limit job (deliver (.start s) content).1).result := by
    simp only [attend, hp, hfault, hf]
    rfl
  have hwait := wait_deliver s content
  rw [hattend]
  split
  · rename_i ho
    rw [if_pos ho] at hwait
    exact await_of_cancelled hwait
  · rename_i ho
    rw [if_neg ho] at hwait
    rw [await_of_wait hwait, script_deliver]
    rfl

/-- A process that starts and has its request on its input makes a run that ends normally unless it
is cancelled, also where it no longer takes the request. -/
theorem result_of_delivery {files : FileSystem} {limit : Int} {job : Job} {s : Script} {t : Text}
    (hc : Text.words job.command ≠ []) (hr : job.request.render = .ok t)
    (hp : job.requestPath = none) (hs : s.startFault = none)
    (hf : deliveryFailure? s.flushFault = none) :
    (run files limit job s).result = if outlasts s then .error .cancelled
      else .ok (outcome (Text.words job.command) s s.exitCode
        (hear limit job.logger s.stderr).1) := by
  have hexecute : (execute files limit job (Text.words job.command) (Text.toUtf8 t) s).result =
      if outlasts s then .error .cancelled else .ok (outcome (Text.words job.command) s s.exitCode
        (hear limit job.logger s.stderr).1) := by
    simp only [execute, hs, attend_of_delivery hp hf]
    split <;> rfl
  rw [run_eq files limit s hc hr]
  simp only [cleanUp, guarded, hp, hexecute]

theorem result_of_exit {files : FileSystem} {limit : Int} {job : Job} {s : Script} {t : Text}
    (hc : Text.words job.command ≠ []) (hr : job.request.render = .ok t) (hp : job.requestPath = none)
    (hs : s.startFault = none) (hf : s.flushFault = none) (hh : s.hangs = false) :
    (run files limit job s).result = .ok (outcome (Text.words job.command) s s.exitCode
      (hear limit job.logger s.stderr).1) := by
  have hd : deliveryFailure? s.flushFault = none := by
    rw [hf]
    rfl
  rw [result_of_delivery hc hr hp hs hd, outlasts, hh, if_neg (by simp)]

end ParserRelay.Run
