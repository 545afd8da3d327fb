import ParserRelay.Call
import ParserRelay.Proofs.Toolchain.Absolute
/-!
# The plan of a call

A call runs what it has planned, and the plan comes from the descriptor that the registry holds under
the name in the configuration. The same descriptor is found again under its own name.
-/
namespace ParserRelay

section Registry

variable {registry : Registry} {name : ParserName} {d : Descriptor}

theorem ParserName.identifier_ofText (t : WideText) : (ParserName.ofText t).identifier = t := by
  cases t with
  | nil => rfl
  | cons c t => rfl

theorem Registry.find?_of_get (h : registry.get name = .ok d) :
    registry.find? name.identifier = some d := by
  unfold get at h
  split at h
  · rename_i hd
    cases h
    exact hd
  · cases h

theorem Registry.get_name (h : registry.get name = .ok d) :
    registry.get (.ofText d.name) = .ok d := by
  have hfind := find?_of_get h
  have hname : d.name = name.identifier := by
    simpa using List.find?_some hfind
  rw [get, ParserName.identifier_ofText, hname, hfind]

theorem Registry.hint?_name (h : registry.get name = .ok d) (stderr : WideText) :
    registry.hint? stderr (.ofText d.name) = d.hint stderr := by
  rw [hint?, get_name h]

end Registry

namespace Call

variable {w : Workplace} {env : Environment} {registry : Registry} {c : Call} {s : Script}
  {config : Config} {request : Request} {d : Descriptor} {command : WideText} {log : Log}
  {report : Report} {p : Plan}

theorem eq_ok_of_checked {α : Type} {x : Checked α} {a : α} (h : checked x = .ok a) : x = .ok a := by
  cases x with
  | error issues => cases h
  | ok b =>
    cases h
    rfl

theorem plan_eq (hconfig : Config.validate c.config = .ok config)
    (hrequest : Request.ofJson c.request = .ok request)
    (hd : registry.get (.ofText config.parser) = .ok d)
    (hcommand : d.command w c.cwd config (.ofText request.mode.name) = .ok (command, log)) :
    plan w registry c = .ok ⟨d, ⟨command, c.cwd, request, d.requestPath c.cwd, Log.parser,
      c.started, c.ended⟩, log⟩ := by
  rw [plan, hconfig, hrequest]
  show Except.bind (registry.get _) _ = _
  rw [hd]
  show Except.bind (d.command _ _ _ _) _ = _
  rw [hcommand]
  rfl

theorem plan_cases (h : plan w registry c = .ok p) : ∃ config request d command log,
    Config.validate c.config = .ok config ∧ Request.ofJson c.request = .ok request ∧
    registry.get (.ofText config.parser) = .ok d ∧
    d.command w c.cwd config (.ofText request.mode.name) = .ok (command, log) ∧
    p = ⟨d, ⟨command, c.cwd, request, d.requestPath c.cwd, Log.parser, c.started, c.ended⟩, log⟩ := by
  obtain ⟨config, hconfig, h⟩ := Toolchain.eq_ok_of_bind h
  obtain ⟨request, hrequest, h⟩ := Toolchain.eq_ok_of_bind h
  obtain ⟨d, hd, h⟩ := Toolchain.eq_ok_of_bind h
  obtain ⟨⟨command, log⟩, hcommand, h⟩ := Toolchain.eq_ok_of_bind h
  cases h
  exact ⟨config, request, d, command, log, eq_ok_of_checked hconfig, eq_ok_of_checked hrequest, hd,
    hcommand, rfl⟩

theorem run_cases (h : (c.run w env registry s).run = some report) : ∃ p, plan w registry c = .ok p ∧
    report = Run.run w.files (env.limitFor c.limit) p.job s := by
  unfold run at h
  split at h
  · cases h
  · rename_i p hp
    exact ⟨p, hp, (Option.some.inj h).symm⟩

theorem result_of_plan (h : plan w registry c = .ok p) : (c.run w env registry s).result =
    (Run.run w.files (env.limitFor c.limit) p.job s).result.bind
      (answer registry p.descriptor c.room) := by
  rw [run, h]

end Call
end ParserRelay
