import ParserRelay.Proofs.Call.Answer
import ParserRelay.Proofs.Run.ErrorStream
/-!
# Messages and chatter apart

The error stream of a process carries messages and chatter in one order of lines. Neither kind of
line has a part in what becomes of the other: lines that are messages do not change the answer of a
call, nor do lines of chatter change the messages.
-/
namespace ParserRelay
open WideText (ofString ofText)

def Outcome.silenced (out : Outcome) : Outcome := { out with messages := [], hasErrors := false }

def Outcome.heard (out : Outcome) : List Message × Bool := (out.messages, out.hasErrors)

namespace Failure

def outcome? : Failure → Option Outcome
  | .exited _ _ outcome => outcome
  | _ => none

def given? {α : Type} : Except Failure α → Option Outcome
  | .ok _ => none
  | .error e => e.outcome?

def silenced : Failure → Failure
  | .exited code hint outcome => .exited code hint (outcome.map Outcome.silenced)
  | e => e

theorem message_silenced (e : Failure) : e.silenced.message = e.message := by
  cases e <;> rfl

end Failure

/-- A report without the messages, the log and the error stream that the process was given. -/
def Report.silenced (r : Report) : Report :=
  { r with result := r.result.map Outcome.silenced, child := r.child.map (·.saying []), log := [] }

namespace Response

def silenced (r : Response) : Response :=
  { r with result := r.result.mapError Failure.silenced, run := r.run.map Report.silenced, log := [] }

def heard (r : Response) : Option (Except Failure (List Message × Bool)) :=
  r.run.map fun report => report.result.map Outcome.heard

end Response

namespace Report.Echoes

variable {r x y : Report} {a b : Bytes} {i j : Interpreter} {registry : Registry} {d : Descriptor}
  {room : ℕ}

theorem answer_hearing (out : Outcome) (i : Interpreter) :
    Call.answer registry d room (out.hearing i) =
    if out.exitCode = 0 then Result.parse (ofText out.stdout) room
    else .error (.exited out.exitCode (registry.hint? i.chatterText (.ofText d.name))
      (some (out.hearing i))) := rfl

theorem result_eq {α : Type} {view : Outcome → α} (hx : r.Echoes a i x) (hy : r.Echoes b j y)
    (h : ∀ out : Outcome, view (out.hearing i) = view (out.hearing j)) :
    x.result.map view = y.result.map view := by
  rw [hx.result, hy.result]
  cases r.result with
  | error e => rfl
  | ok out => exact congrArg Except.ok (h out)

theorem answer_eq {α : Type} (view : Except Failure Json.Members → α) (hx : r.Echoes a i x)
    (hy : r.Echoes b j y) (h : ∀ out : Outcome, view (Call.answer registry d room (out.hearing i)) =
      view (Call.answer registry d room (out.hearing j))) :
    view (x.result.bind (Call.answer registry d room)) =
      view (y.result.bind (Call.answer registry d room)) := by
  rw [hx.result, hy.result]
  cases r.result with
  | error e => rfl
  | ok out => exact h out

theorem silenced_eq (hx : r.Echoes a i x) (hy : r.Echoes b j y) (h : i.chatter = j.chatter) :
    x.silenced = y.silenced := by
  have hresult : x.result.map Outcome.silenced = y.result.map Outcome.silenced := by
    apply hx.result_eq hy
    intro out
    simp only [Outcome.hearing, Outcome.silenced, Interpreter.chatterText, h]
  have hchild : x.child.map (·.saying []) = y.child.map (·.saying []) := by
    rw [hx.child, hy.child, Option.map_map, Option.map_map]
    rfl
  simp only [silenced, hresult, hchild, hx.spawn, hy.spawn, hx.files, hy.files]

theorem answer_silenced_eq (hx : r.Echoes a i x) (hy : r.Echoes b j y) (h : i.chatter = j.chatter) :
    (x.result.bind (Call.answer registry d room)).mapError Failure.silenced =
      (y.result.bind (Call.answer registry d room)).mapError Failure.silenced := by
  apply hx.answer_eq (Except.mapError Failure.silenced) hy
  intro out
  have htext : i.chatterText = j.chatterText := congrArg List.flatten h
  rw [answer_hearing, answer_hearing, htext]
  by_cases hz : out.exitCode = 0
  · rw [if_pos hz, if_pos hz]
  · simp only [if_neg hz, Except.mapError, Failure.silenced, Option.map_some, Outcome.silenced,
      Outcome.hearing, htext]

theorem heard_eq (hx : r.Echoes a i x) (hy : r.Echoes b j y) (h : i.messages = j.messages)
    (he : i.hasErrors = j.hasErrors) : x.result.map Outcome.heard = y.result.map Outcome.heard := by
  apply hx.result_eq hy
  intro out
  simp only [Outcome.hearing, Outcome.heard, h, he]

theorem given_heard_eq (hx : r.Echoes a i x) (hy : r.Echoes b j y) (h : i.messages = j.messages)
    (he : i.hasErrors = j.hasErrors) :
    (Failure.given? (x.result.bind (Call.answer registry d room))).map Outcome.heard =
      (Failure.given? (y.result.bind (Call.answer registry d room))).map Outcome.heard := by
  apply hx.answer_eq (fun result => (Failure.given? result).map Outcome.heard) hy
  intro out
  rw [answer_hearing, answer_hearing]
  by_cases hz : out.exitCode = 0
  · rw [if_pos hz, if_pos hz]
  · simp only [if_neg hz, Failure.given?, Failure.outcome?, Option.map_some, Outcome.heard,
      Outcome.hearing, h, he]

end Report.Echoes

theorem Response.message_eq {x y : Response} (h : x.silenced = y.silenced) {e e' : Failure}
    (hx : x.result = .error e) (hy : y.result = .error e') : e.message = e'.message := by
  have hresult : x.result.mapError Failure.silenced = y.result.mapError Failure.silenced :=
    congrArg Response.result h
  rw [hx, hy] at hresult
  have hsilenced : e.silenced = e'.silenced := Except.error.inj hresult
  rw [← e.message_silenced, hsilenced, e'.message_silenced]

namespace Call

theorem run_silenced_eq (w : Workplace) (env : Environment) (registry : Registry) (c : Call)
    (s : Script) {a b : Bytes} (h : LineReader.DifferIn Run.IsMessage a b) :
    (c.run w env registry (s.saying a)).silenced = (c.run w env registry (s.saying b)).silenced := by
  cases hp : plan w registry c with
  | error e => simp only [run, hp]
  | ok p =>
    have ha := Run.run_saying w.files (env.limitFor c.limit) p.job s a
    have hb := Run.run_saying w.files (env.limitFor c.limit) p.job s b
    have hchatter := Run.chatter_hear h (env.limitFor c.limit) p.job.logger
    simp only [run, hp, Response.silenced, Option.map_some, ha.silenced_eq hb hchatter,
      ha.answer_silenced_eq hb hchatter, ha.files, hb.files]

theorem run_heard_eq (w : Workplace) (env : Environment) (registry : Registry) (c : Call)
    (s : Script) {a b : Bytes} (h : LineReader.DifferIn Run.IsChatter a b) :
    let response := fun stderr => c.run w env registry (s.saying stderr)
    (response a).heard = (response b).heard ∧
      (Failure.given? (response a).result).map Outcome.heard =
        (Failure.given? (response b).result).map Outcome.heard := by
  cases hp : plan w registry c with
  | error e => simp only [run, hp, and_self]
  | ok p =>
    have ha := Run.run_saying w.files (env.limitFor c.limit) p.job s a
    have hb := Run.run_saying w.files (env.limitFor c.limit) p.job s b
    obtain ⟨hmessages, herrors⟩ := Run.messages_hear h (env.limitFor c.limit) p.job.logger
    simp only [run, hp, Response.heard, Option.map_some, ha.heard_eq hb hmessages herrors,
      ha.given_heard_eq hb hmessages herrors, and_self]

/-- Two error streams that differ in whole lines which are messages lead to one answer: the same
result, or failures with the same text, advice and streams, and everything else about the run is the
same but for the messages and the log. And two that differ in lines which are no messages lead to the
same messages, in the outcome of the run and in that of the failure. -/
theorem messages_and_chatter_apart (w : Workplace) (env : Environment) (registry : Registry)
    (c : Call) (s : Script) {a b : Bytes} :
    let response := fun stderr => c.run w env registry (s.saying stderr)
    (LineReader.DifferIn Run.IsMessage a b → (response a).silenced = (response b).silenced ∧
      ∀ e e', (response a).result = .error e → (response b).result = .error e' →
        e.message = e'.message) ∧
    (LineReader.DifferIn Run.IsChatter a b →
      (response a).heard = (response b).heard ∧
        (Failure.given? (response a).result).map Outcome.heard =
          (Failure.given? (response b).result).map Outcome.heard) := by
  intro response
  constructor
  · intro h
    have hsilenced := run_silenced_eq w env registry c s h
    exact ⟨hsilenced, fun e e' he he' => Response.message_eq hsilenced he he'⟩
  · exact run_heard_eq w env registry c s

def messageLine : Bytes := Text.toUtf8 "\x7b\"message\":\"full\",\"level\":\"ERROR\"\x7d ".toList

def chatterLine : Bytes := Text.toUtf8 "\x7b\"level\":\"ERROR\"\x7d".toList

def lastLine : Bytes := Text.toUtf8 "no space".toList

/-- A message between two lines of chatter, the last one without a line end. -/
theorem echo_apart :
    LineReader.DifferIn Run.IsMessage (chatterLine ++ LineReader.newline :: lastLine)
      (chatterLine ++ LineReader.newline :: (messageLine ++ LineReader.newline :: lastLine)) ∧
    LineReader.DifferIn Run.IsChatter (messageLine ++ LineReader.newline :: lastLine)
      (chatterLine ++ LineReader.newline :: (messageLine ++ LineReader.newline :: lastLine)) ∧
    (echoCall.run echoWorkplace .start echoRegistry (complaining.saying
      (chatterLine ++ LineReader.newline :: lastLine))).silenced =
        (echoCall.run echoWorkplace .start echoRegistry (complaining.saying (chatterLine ++
          LineReader.newline :: (messageLine ++ LineReader.newline :: lastLine)))).silenced ∧
    (echoCall.run echoWorkplace .start echoRegistry (complaining.saying
      (messageLine ++ LineReader.newline :: lastLine))).heard =
        (echoCall.run echoWorkplace .start echoRegistry (complaining.saying (chatterLine ++
          LineReader.newline :: (messageLine ++ LineReader.newline :: lastLine)))).heard := by
  have hmessage : Interpreter.message? (Run.chunk (messageLine ++ [LineReader.newline])) =
      some ⟨.error, ofString "full"⟩ := by decide +kernel
  have hchatter : Interpreter.message? (Run.chunk (chatterLine ++ [LineReader.newline])) = none := by
    decide +kernel
  have hput : LineReader.PutIn Run.IsMessage (chatterLine ++ [LineReader.newline] ++ lastLine)
      (chatterLine ++ [LineReader.newline] ++ (messageLine ++ LineReader.newline :: lastLine)) :=
    .mk (.inr rfl) (by decide) (by rw [Run.IsMessage, hmessage]; rfl)
  have hput' : LineReader.PutIn Run.IsChatter ([] ++ (messageLine ++ LineReader.newline :: lastLine))
      ([] ++ (chatterLine ++ LineReader.newline :: (messageLine ++ LineReader.newline :: lastLine))) :=
    .mk (.inl rfl) (by decide) hchatter
  have hd := Relation.EqvGen.rel _ _ hput
  have hd' := Relation.EqvGen.rel _ _ hput'
  rw [List.append_assoc, List.append_assoc] at hd
  refine ⟨hd, hd', ?_, ?_⟩
  · exact ((messages_and_chatter_apart echoWorkplace .start echoRegistry echoCall complaining).1 hd).1
  · exact ((messages_and_chatter_apart echoWorkplace .start echoRegistry echoCall complaining).2 hd').1

end Call
end ParserRelay
