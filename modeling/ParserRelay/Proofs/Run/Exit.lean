import ParserRelay.Proofs.Run.Delivery
/-!
# Runs whose process exits

A process that was not killed has come to its exit, and unless the delivery of the request failed the
run then has an outcome: neither the hearing of its streams nor the removal of the request file takes
it away.
-/
namespace ParserRelay.Run
open FileSystem

variable {files : FileSystem} {limit : Int} {job : Job} {s : Script} {content : Bytes} {c : Child}
  {t : Text}

theorem wait_start (s : Script) :
    (Child.start s).wait.2 = if s.hangs then none else some s.exitCode := by
  cases hh : s.hangs <;> simp [Child.start, Child.wait, hh]

theorem wait_of_alive (h : (await limit job c).child.killed = false) : ∃ code, c.wait.2 = some code := by
  unfold await at h
  split at h
  · rename_i d hw
    obtain ⟨rfl, hexit⟩ := Child.eq_of_wait_none hw
    simp [Child.stop_eq, hexit] at h
  · rename_i d code hw
    exact ⟨code, by rw [hw]⟩

theorem attend_of_alive (hd : job.requestPath = none → deliveryFailure? s.flushFault = none)
    (h : (attend limit job content (.start s)).child.killed = false) :
    (attend limit job content (.start s)).result =
      .ok (s.exitCode, (hear limit job.logger s.stderr).1) := by
  cases hp : job.requestPath with
  | some p =>
    have hattend : attend limit job content (.start s) = await limit job (.start s) :=
      if_pos (by simp [hp])
    rw [hattend] at h ⊢
    obtain ⟨code, hcode⟩ := wait_of_alive h
    rw [await_of_wait hcode]
    rw [wait_start] at hcode
    split at hcode
    · cases hcode
    · cases hcode
      rfl
  | none =>
    have hfault : (deliver (.start s) content).2 = s.flushFault := flush_fault _
    have hchild : (attend limit job content (.start s)).child =
        (await limit job (deliver (.start s) content).1).child := by
      simp only [attend, hp, hfault, hd hp]
      rfl
    rw [hchild] at h
    obtain ⟨code, hcode⟩ := wait_of_alive h
    have hlives : outlasts s = false := by
      rw [wait_deliver] at hcode
      by_contra ho
      rw [if_pos (by simpa using ho)] at hcode
      cases hcode
    rw [attend_of_delivery hp (hd hp), hlives]
    rfl

theorem result_cleanUp (h : Ready files job content) {r : Report}
    (hr : r.files = prepared files job content) : (cleanUp job.requestPath r).result = r.result := by
  unfold cleanUp
  split
  · rfl
  · rename_i p hp
    have hw := h p hp
    obtain ⟨hwrite, hafter⟩ := prepare_cases hw
    have hdiscard : (r.files.discard p).failure = none := by
      rw [hr, prepared_of_path hp, hafter]
      exact discard_of_write hwrite
    simp only [hdiscard]

/-- A process that was not killed gives its run an outcome, if its request was delivered or it closed
its input before. -/
theorem result_of_alive (hc : (run files limit job s).child = some c) (hk : c.killed = false)
    (hd : job.requestPath = none → deliveryFailure? s.flushFault = none) :
    (run files limit job s).result = .ok (outcome (Text.words job.command) s s.exitCode
      (hear limit job.logger s.stderr).1) := by
  obtain ⟨t, sp, ha, rfl⟩ := asks_of_child hc
  have hstart : s.startFault = none := (child_isSome_iff.mp (Option.isSome_of_eq_some hc)).2
  have hattend := attend_of_alive hd hk
  rw [run_eq files limit s ha.command ha.rendered, guarded_of_ready ha.ready]
  have hresult := result_cleanUp ha.ready
    (@files_execute _ limit job s (Text.words job.command) (Text.toUtf8 t))
  rw [hresult, execute, hstart]
  simp only [hattend, Except.map]

end ParserRelay.Run
