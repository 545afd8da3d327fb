import ParserRelay.Proofs.Message.Sorting
import ParserRelay.Proofs.Run.ProcessLife
import ParserRelay.Proofs.Stream.Insertion
/-!
# The error stream of a run

A process that says something else on its error stream, and does all else as before, makes the same
run but for what is heard. And of what is heard the messages do not depend on chatter, nor the chatter
on messages.
-/
namespace ParserRelay

def Script.saying (s : Script) (stderr : Bytes) : Script := { s with stderr }

def Child.saying (c : Child) (stderr : Bytes) : Child := { c with script := c.script.saying stderr }

/-- The outcome with what an interpreter has sorted in place of what was heard. -/
def Outcome.hearing (out : Outcome) (heard : Interpreter) : Outcome :=
  { out with stderr := heard.chatterText, messages := heard.messages, hasErrors := heard.hasErrors }

namespace Child

theorem wait_saying (c : Child) (b : Bytes) : (c.saying b).wait = (c.wait.1.saying b, c.wait.2) := by
  obtain ⟨script, exit, written, closed, killed⟩ := c
  cases exit with
  | some code => rfl
  | none => cases killed <;> cases hh : script.hangs <;> simp [wait, saying, Script.saying, hh]

theorem stop_saying (c : Child) (b : Bytes) : (c.saying b).stop = c.stop.saying b := by
  rw [stop_eq, stop_eq]
  rfl

theorem flush_saying (c : Child) (b : Bytes) :
    (c.saying b).flush = (c.flush.1.saying b, c.flush.2) := by
  cases hf : c.script.flushFault <;> cases he : c.script.exitsEarly <;>
    simp [flush, saying, Script.saying, hf, he]

end Child

/-- The second report is the first one with the other stream heard. -/
structure Report.Echoes (b : Bytes) (heard : Interpreter) (r r' : Report) : Prop where
  result : r'.result = r.result.map (·.hearing heard)
  spawn : r'.spawn = r.spawn
  child : r'.child = r.child.map (·.saying b)
  files : r'.files = r.files

namespace Run

variable {files : FileSystem} {limit : Int} {job : Job} {logger : WideText} {a b : Bytes}

section Attending

structure Attended.Echoes (b : Bytes) (heard : Interpreter) (a a' : Attended) : Prop where
  child : a'.child = a.child.saying b
  result : a'.result = a.result.map fun x => (x.1, heard)

theorem await_saying (limit : Int) (job : Job) (c : Child) (b : Bytes) :
    Attended.Echoes b (hear limit job.logger b).1 (await limit job c) (await limit job (c.saying b)) := by
  have hwait := c.wait_saying b
  rcases hw : c.wait with ⟨d, _ | code⟩
  · rw [hw] at hwait
    constructor
    · simp only [await, hw, hwait, Child.stop_saying]
    · simp only [await, hw, hwait]
      rfl
  · rw [hw] at hwait
    constructor
    · simp only [await, hw, hwait]
    · simp only [await, hw, hwait]
      rfl

theorem deliver_saying (c : Child) (content b : Bytes) :
    deliver (c.saying b) content = ((deliver c content).1.saying b, (deliver c content).2) := by
  have hflush := (c.write content).flush_saying b
  unfold deliver
  rw [show (c.saying b).write content = (c.write content).saying b from rfl, hflush]
  rfl

theorem attend_saying (limit : Int) (job : Job) (content : Bytes) (c : Child) (b : Bytes) :
    Attended.Echoes b (hear limit job.logger b).1 (attend limit job content c)
      (attend limit job content (c.saying b)) := by
  unfold attend
  split
  · exact await_saying limit job c b
  · simp only [deliver_saying]
    split
    · exact ⟨Child.stop_saying _ _, rfl⟩
    · obtain ⟨hchild, hresult⟩ := await_saying limit job (deliver c content).1 b
      exact ⟨hchild, hresult⟩

end Attending

theorem execute_saying (args : List WideText) (content : Bytes) (s : Script) (b : Bytes) :
    Report.Echoes b (hear limit job.logger b).1 (execute files limit job args content s)
      (execute files limit job args content (s.saying b)) := by
  obtain ⟨hchild, hresult⟩ := attend_saying limit job content (.start s) b
  have hstart : (s.saying b).startFault = s.startFault := rfl
  unfold execute
  simp only [hstart]
  split
  · exact ⟨rfl, rfl, rfl, rfl⟩
  · refine ⟨?_, rfl, congrArg some hchild, rfl⟩
    show Except.map _ (attend limit job content ((Child.start s).saying b)).result = _
    rw [hresult]
    cases (attend limit job content (.start s)).result with
    | error e => rfl
    | ok x => rfl

theorem cleanUp_echoes {heard : Interpreter} {r r' : Report} (h : r.Echoes b heard r')
    (p : Option Path) : (cleanUp p r).Echoes b heard (cleanUp p r') := by
  cases p with
  | none => exact h
  | some p =>
    simp only [cleanUp, h.files]
    split
    · exact ⟨h.result, h.spawn, h.child, rfl⟩
    · exact ⟨rfl, h.spawn, h.child, rfl⟩

theorem guarded_saying (files : FileSystem) (limit : Int) (job : Job) (args : List WideText)
    (content : Bytes) (s : Script) (b : Bytes) : Report.Echoes b (hear limit job.logger b).1
      (guarded files limit job args content s)
      (guarded files limit job args content (s.saying b)) := by
  unfold guarded
  split
  · exact execute_saying args content s b
  · simp only
    split
    · exact ⟨rfl, rfl, rfl, rfl⟩
    · exact execute_saying args content s b

theorem run_saying (files : FileSystem) (limit : Int) (job : Job) (s : Script) (b : Bytes) :
    (run files limit job s).Echoes b (hear limit job.logger b).1
      (run files limit job (s.saying b)) := by
  by_cases hc : Text.words job.command = []
  · rw [run_of_no_command hc, run_of_no_command hc]
    exact ⟨rfl, rfl, rfl, rfl⟩
  cases hr : job.request.render with
  | error cause =>
    rw [run_of_unwritable hc hr, run_of_unwritable hc hr]
    exact ⟨rfl, rfl, rfl, rfl⟩
  | ok t =>
    rw [run_eq files limit s hc hr, run_eq files limit (s.saying b) hc hr]
    obtain ⟨hresult, hspawn, hchild, hfiles⟩ := cleanUp_echoes
      (guarded_saying files limit job (Text.words job.command) (Text.toUtf8 t) s b) job.requestPath
    exact ⟨hresult, hspawn, hchild, hfiles⟩

section Hearing

def chunk (line : Bytes) : WideText := .ofText (Text.ofUtf8 line)

def IsMessage (line : Bytes) : Prop := (Interpreter.message? (chunk line)).isSome

def IsChatter (line : Bytes) : Prop := Interpreter.message? (chunk line) = none

theorem hear_eq (limit : Int) (logger : WideText) (stderr : Bytes) :
    let lines := LineReader.lines limit.toNat stderr
    let messages := lines.filterMap fun l => Interpreter.message? (chunk l)
    (hear limit logger stderr).1 = ⟨messages,
      (lines.filter fun l => (Interpreter.message? (chunk l)).isNone).map chunk,
      messages.any (·.level = .error)⟩ := by
  simp only [hear, Interpreter.feedAll_eq, Interpreter.start, List.nil_append, Bool.false_or,
    List.filterMap_map, List.filter_map]
  rfl

theorem chatter_hear (h : LineReader.DifferIn IsMessage a b) (limit : Int) (logger : WideText) :
    (hear limit logger a).1.chatter = (hear limit logger b).1.chatter := by
  have hlines := LineReader.filter_lines (p := fun l => (Interpreter.message? (chunk l)).isNone)
    (fun _ hl => Option.isNone_eq_false_iff.mpr hl) h limit.toNat
  rw [hear_eq, hear_eq]
  simp only [hlines]

theorem messages_hear (h : LineReader.DifferIn IsChatter a b) (limit : Int) (logger : WideText) :
    (hear limit logger a).1.messages = (hear limit logger b).1.messages ∧
      (hear limit logger a).1.hasErrors = (hear limit logger b).1.hasErrors := by
  have hlines := LineReader.filterMap_lines (f := fun l => Interpreter.message? (chunk l))
    (fun _ hl => hl) h limit.toNat
  rw [hear_eq, hear_eq]
  simp only [hlines, and_self]

end Hearing

end Run
end ParserRelay
