import ParserRelay.Proofs.Call.ComposeRequest
/-!
# Calls that fail before their process

Five stages lie before the process of a call. A call in which one of them fails asks for no process
and leaves the files alone, and it fails with what the first such stage gives, however many of the
later ones would have failed too.
-/
namespace ParserRelay
open WideText (ofString ofText)

structure Response.Idle (r : Response) (files : FileSystem) : Prop where
  spawn : r.run.bind Report.spawn = none
  child : r.run.bind Report.child = none
  files : r.files = files

namespace Toolchain

variable {fs : FileSystem} {test : Path → Except FileError Bool} {cwd : WideText} {base : Path}

theorem first?_eq_none {places : List Path} (h : ∀ p ∈ places, test p = .ok false) :
    first? test places = .ok none := by
  induction places with
  | nil => rfl
  | cons p r ih =>
    rw [first?, h p List.mem_cons_self]
    exact ih fun q hq => h q (List.mem_cons_of_mem p hq)

theorem gradleWrapper_of_none (hbase : fs.resolve (.ofText cwd) = .ok base)
    (h : ∀ d ∈ base.ancestry, holdsWrapper fs d = .ok false) :
    gradleWrapper fs cwd none = .error (.noWrapper base) := by
  rw [gradleWrapper, canonical, hbase]
  show Except.bind (files (first? (holdsWrapper fs) base.ancestry)) _ = _
  rw [first?_eq_none h]
  rfl

theorem gradleWrapper_of_unresolved {e : FileError} (h : fs.resolve (.ofText cwd) = .error e)
    (setting : Option WideText) : gradleWrapper fs cwd setting = .error (.file e) := by
  rw [gradleWrapper, canonical, h]
  rfl

end Toolchain

theorem Descriptor.composeCommand_of_error {w : Workplace} {cwd : WideText} {config : Config} {mode : Json}
    {e : Failure} (h : Toolchain.gradleWrapper w.files cwd config.gradleWrapper = .error e) :
    composeCommand w cwd config mode = .error e := by
  rw [composeCommand, h]
  rfl

namespace Call

inductive Stage
  | config
  | request
  | lookup
  | command
  | words

def Stage.before : Stage → List Stage
  | .config => []
  | .request => [.config]
  | .lookup => [.config, .request]
  | .command => [.config, .request, .lookup]
  | .words => [.config, .request, .lookup, .command]

/-- A stage fails of itself with what it gets from the call and from the stages whose results it
needs; whether the other stages fail is not asked. -/
inductive Fails (w : Workplace) (registry : Registry) (c : Call) : Stage → Failure → Prop
  | config {issues} : Config.validate c.config = .error issues →
      Fails w registry c .config (.invalid issues)
  | request {issues} : Request.ofJson c.request = .error issues →
      Fails w registry c .request (.invalid issues)
  | lookup {config e} : Config.validate c.config = .ok config →
      registry.get (.ofText config.parser) = .error e → Fails w registry c .lookup e
  | command {config request d e} : Config.validate c.config = .ok config →
      Request.ofJson c.request = .ok request → registry.get (.ofText config.parser) = .ok d →
      d.command w c.cwd config (.ofText request.mode.name) = .error e →
      Fails w registry c .command e
  | words {config request d command log} : Config.validate c.config = .ok config →
      Request.ofJson c.request = .ok request → registry.get (.ofText config.parser) = .ok d →
      d.command w c.cwd config (.ofText request.mode.name) = .ok (command, log) →
      Text.words command = [] → Fails w registry c .words .emptyCommand

def FirstFails (w : Workplace) (registry : Registry) (c : Call) (stage : Stage) (e : Failure) : Prop :=
  Fails w registry c stage e ∧ ∀ earlier ∈ stage.before, ∀ e', ¬ Fails w registry c earlier e'

variable {w : Workplace} {env : Environment} {registry : Registry} {c : Call} {s : Script}
  {stage : Stage} {e : Failure} {p : Plan}

theorem Stage.length_before {earlier : Stage} (h : earlier ∈ stage.before) :
    earlier.before.length < stage.before.length := by
  cases stage <;> simp only [before, List.mem_cons, List.not_mem_nil, or_false] at h
  case request =>
    subst h
    decide
  case lookup => rcases h with rfl | rfl <;> decide
  case command => rcases h with rfl | rfl | rfl <;> decide
  case words => rcases h with rfl | rfl | rfl | rfl <;> decide

theorem Fails.exists_first {stage : Stage} {e : Failure} (h : Fails w registry c stage e) :
    ∃ first e', FirstFails w registry c first e' := by
  -- The number of stages before decreases, down to a stage that none of them precedes in failing.
  by_cases hearlier : ∃ earlier ∈ stage.before, ∃ e', Fails w registry c earlier e'
  · obtain ⟨earlier, hmem, e', he⟩ := hearlier
    have hlt := Stage.length_before hmem
    exact he.exists_first
  · exact ⟨stage, e, h, fun earlier hmem e' he => hearlier ⟨earlier, hmem, e', he⟩⟩
termination_by stage.before.length

theorem Fails.first_command (h : Fails w registry c .command e) :
    FirstFails w registry c .command e := by
  refine ⟨h, fun earlier hmem e' he => ?_⟩
  cases h with
  | command hconfig hrequest hd =>
    cases he with
    | config h => cases hconfig.symm.trans h
    | request h => cases hrequest.symm.trans h
    | lookup hc h =>
      cases hconfig.symm.trans hc
      cases hd.symm.trans h
    | command => simp [Stage.before] at hmem
    | words => simp [Stage.before] at hmem

theorem not_fails_of_plan (hp : plan w registry c = .ok p) (hw : Text.words p.job.command ≠ []) :
    ¬ Fails w registry c stage e := by
  obtain ⟨config, request, d, command, log, hconfig, hrequest, hd, hcommand, rfl⟩ := plan_cases hp
  intro h
  cases h with
  | config h => cases hconfig.symm.trans h
  | request h => cases hrequest.symm.trans h
  | lookup hc h =>
    cases hconfig.symm.trans hc
    cases hd.symm.trans h
  | command hc hr hg h =>
    cases hconfig.symm.trans hc
    cases hrequest.symm.trans hr
    cases hd.symm.trans hg
    cases hcommand.symm.trans h
  | words hc hr hg hm h =>
    cases hconfig.symm.trans hc
    cases hrequest.symm.trans hr
    cases hd.symm.trans hg
    cases hcommand.symm.trans hm
    exact hw h

theorem run_of_no_plan (h : plan w registry c = .error e) :
    c.run w env registry s = ⟨.error e, none, w.files, []⟩ := by
  rw [run, h]

theorem run_of_no_words (h : plan w registry c = .ok p) (hw : Text.words p.job.command = []) :
    c.run w env registry s =
      ⟨.error .emptyCommand, some (.refused w.files .emptyCommand), w.files, p.log⟩ := by
  have hrun : Run.run w.files (env.limitFor c.limit) p.job s = .refused w.files .emptyCommand :=
    Run.run_of_no_command hw
  simp only [run, h, hrun, Report.refused, Except.bind, List.append_nil]

theorem Fails.idle (h : Fails w registry c stage e) : (c.run w env registry s).Idle w.files := by
  cases hp : plan w registry c with
  | error e =>
    rw [run_of_no_plan hp]
    exact ⟨rfl, rfl, rfl⟩
  | ok p =>
    by_cases hw : Text.words p.job.command = []
    · rw [run_of_no_words hp hw]
      exact ⟨rfl, rfl, rfl⟩
    · exact absurd h (not_fails_of_plan hp hw)

theorem exists_config (h : ∀ e, ¬ Fails w registry c .config e) :
    ∃ config, Config.validate c.config = .ok config := by
  cases hc : Config.validate c.config with
  | error issues => exact absurd (.config hc) (h _)
  | ok config => exact ⟨config, rfl⟩

theorem exists_request (h : ∀ e, ¬ Fails w registry c .request e) :
    ∃ request, Request.ofJson c.request = .ok request := by
  cases hr : Request.ofJson c.request with
  | error issues => exact absurd (.request hr) (h _)
  | ok request => exact ⟨request, rfl⟩

theorem FirstFails.result (h : FirstFails w registry c stage e) :
    (c.run w env registry s).result = .error e := by
  obtain ⟨h, hbefore⟩ := h
  cases h with
  | @config issues h =>
    have hp : plan w registry c = .error (.invalid issues) := by
      rw [plan, h]
      rfl
    rw [run_of_no_plan hp]
  | @request issues h =>
    obtain ⟨config, hconfig⟩ := exists_config (hbefore .config (by simp [Stage.before]))
    have hp : plan w registry c = .error (.invalid issues) := by
      rw [plan, hconfig, h]
      rfl
    rw [run_of_no_plan hp]
  | lookup hconfig h =>
    -- The lookup fails without a look at the request, so its being first is needed here.
    obtain ⟨request, hrequest⟩ := exists_request (hbefore .request (by simp [Stage.before]))
    have hp : plan w registry c = .error e := by
      rw [plan, hconfig, hrequest]
      show Except.bind (registry.get _) _ = _
      rw [h]
      rfl
    rw [run_of_no_plan hp]
  | command hconfig hrequest hd h =>
    have hp : plan w registry c = .error e := by
      rw [plan, hconfig, hrequest]
      show Except.bind (registry.get _) _ = _
      rw [hd]
      show Except.bind (Descriptor.command _ _ _ _ _) _ = _
      rw [h]
      rfl
    rw [run_of_no_plan hp]
  | words hconfig hrequest hd hcommand hw =>
    rw [run_of_no_words (plan_eq hconfig hrequest hd hcommand) hw]

/-- A call in which one of its stages fails asks for no process and leaves all files as they were, and
it fails with what the first failing stage gives. -/
theorem early_failure_has_no_effect (env : Environment) (s : Script)
    (h : Fails w registry c stage e) :
    (c.run w env registry s).Idle w.files ∧
    (∃ first e', FirstFails w registry c first e') ∧
    ∀ first e', FirstFails w registry c first e' → (c.run w env registry s).result = .error e' :=
  ⟨h.idle, h.exists_first, fun _ _ hfirst => hfirst.result⟩

/-- A file where the request would be written, and two links to each other. -/
def heldWorkplace : Workplace where
  files := .atRoot [(ofString "tmp", .folder [(ofString "codelink-parser-input.json.tmp", .file [55])]),
    (ofString "a", .link (ofString "b")), (ofString "b", .link (ofString "a"))]
  interpreter := ofString "python"

def strayCall : Call where
  config := .object (some (.value (.str (ofString "none")))) []
  request := .obj []
  cwd := ofString "/"
  limit := none
  started := .whole 0
  ended := .whole 0

def heldResponse (c : Call) : Response := c.run heldWorkplace .start .builtIn obedient

theorem compose_fails {cwd : WideText} {e : Failure}
    (h : Toolchain.gradleWrapper heldWorkplace.files cwd none = .error e) :
    Fails heldWorkplace .builtIn (composeCall cwd) .command e := by
  have hconfig : Config.validate (composeCall cwd).config =
      .ok ⟨ofText BuiltIn.compose.name, none, none, none, [Config.parserKey], []⟩ := by rfl
  have hrequest : Request.ofJson (composeCall cwd).request = .ok ⟨.create, []⟩ := by rfl
  have hcommand : Descriptor.composeCommand heldWorkplace cwd
      ⟨ofText BuiltIn.compose.name, none, none, none, [Config.parserKey], []⟩
      (.ofText Mode.create.name) = .error e := Descriptor.composeCommand_of_error h
  exact .command hconfig hrequest (get_compose rfl) hcommand

/-- No wrapper on the way up, no way up from a loop of links, and two failing stages at once. -/
theorem held_file_survives :
    (heldResponse (composeCall (ofString "/"))).result = .error (.noWrapper ⟨.root, []⟩) ∧
    (heldResponse (composeCall (ofString "/"))).files.read?
      (Descriptor.composeRequestPath (ofString "/")) = some [55] ∧
    (heldResponse (composeCall (ofString "/a"))).result =
      .error (.file (.linkLoop (ofString "/a"))) ∧
    (heldResponse (composeCall (ofString "/a"))).run.bind Report.spawn = none ∧
    (heldResponse strayCall).result = .error (.invalid [⟨some (ofText Request.modeKey), .missing⟩]) := by
  have hroot : heldWorkplace.files.resolve (.ofText (ofString "/")) = .ok ⟨.root, []⟩ := by
    decide +kernel
  have hempty : ∀ d ∈ Path.ancestry ⟨.root, []⟩,
      Toolchain.holdsWrapper heldWorkplace.files d = .ok false := by decide +kernel
  have hloop : heldWorkplace.files.resolve (.ofText (ofString "/a")) =
      .error (.linkLoop (ofString "/a")) := by decide +kernel
  have hmissing := compose_fails (Toolchain.gradleWrapper_of_none hroot hempty)
  have hlooped := compose_fails (Toolchain.gradleWrapper_of_unresolved hloop none)
  have hconfig : Config.validate strayCall.config =
      .ok ⟨ofString "none", none, none, none, [Config.parserKey], []⟩ := by rfl
  have hstray : Fails heldWorkplace .builtIn strayCall .lookup _ := .lookup hconfig rfl
  have hrequest : FirstFails heldWorkplace .builtIn strayCall .request
      (.invalid [⟨some (ofText Request.modeKey), .missing⟩]) := by
    refine ⟨.request rfl, fun earlier hmem e' he => ?_⟩
    obtain rfl := List.mem_singleton.mp hmem
    cases he with
    | config h => cases hconfig.symm.trans h
  obtain ⟨hidle, -, hresult⟩ := early_failure_has_no_effect .start obedient hmissing
  obtain ⟨hidle', -, hresult'⟩ := early_failure_has_no_effect .start obedient hlooped
  refine ⟨hresult _ _ hmissing.first_command, ?_, hresult' _ _ hlooped.first_command, hidle'.spawn,
    (early_failure_has_no_effect .start obedient hstray).2.2 _ _ hrequest⟩
  rw [heldResponse, hidle.files]
  decide +kernel

end Call
end ParserRelay
