import ParserRelay.Proofs.Call.Plan
import ParserRelay.Proofs.Path.Spelling
import ParserRelay.Proofs.Run.Delivery
import ParserRelay.Proofs.Toolchain.Absolute
/-!
# The request of a Gradle task

The task is told where its request is by the path under which the file was written, as it is seen
from the current directory of the caller. The task reads that path from its own working directory,
so it finds the file if the path is absolute, or if both directories are one.
-/
namespace ParserRelay
open WideText (ofString ofText)

namespace Descriptor

variable {w : Workplace} {cwd : WideText} {config : Config} {d : Path} {log : Log}

def fileFlag : WideText := ofString "-PfilePath="

def composeWords (d : Path) (m : Mode) (request : Path) : List WideText :=
  [(Toolchain.wrapperExecutable d).text, ofString "-p", d.text, task m, fileFlag ++ request.text,
    ofString "-q"]

theorem ofJson?_name (m : Mode) : Mode.ofJson? (.ofText m.name) = some m := by
  show (WideText.toText? (ofText m.name)).bind Mode.ofName? = some m
  rw [WideText.toText?_ofText]
  exact Mode.ofName?_name m

theorem composeCommand_eq (m : Mode)
    (h : Toolchain.gradleWrapper w.files cwd config.gradleWrapper = .ok (d, log)) :
    composeCommand w cwd config (.ofText m.name) =
      .ok (Text.joinWith [.char ' '] (composeWords d m (composeRequestPath cwd)), log) := by
  rw [composeCommand, h, ofJson?_name]
  show Except.ok (_, log) = Except.ok (_, log)
  simp [composeWords, Text.joinWith, fileFlag, ofString]

theorem words_composeWords (m : Mode) {request : Path} (hd : d.Unbroken) (hr : request.Unbroken) :
    Text.words (Text.joinWith [.char ' '] (composeWords d m request)) = composeWords d m request := by
  have hgradlew : (Toolchain.wrapperExecutable d).Unbroken := hd.child (by decide)
  have hflag : ∀ c ∈ fileFlag ++ request.text, ¬ Text.isBlank c := by
    intro c hc
    rcases List.mem_append.mp hc with hc | hc
    · exact (by decide : ∀ c ∈ fileFlag, ¬ Text.isBlank c) c hc
    · exact Path.unbroken_iff.mp hr c hc
  have htask : task m ≠ [] ∧ ∀ c ∈ task m, ¬ Text.isBlank c := by cases m <;> decide
  apply Text.words_joinWith (by decide)
  intro t ht
  simp only [composeWords, List.mem_cons, List.not_mem_nil, or_false] at ht
  rcases ht with rfl | rfl | rfl | rfl | rfl | rfl
  · exact ⟨Path.text_ne_nil _, Path.unbroken_iff.mp hgradlew⟩
  · decide
  · exact ⟨Path.text_ne_nil d, Path.unbroken_iff.mp hd⟩
  · exact htask
  · exact ⟨by simp [fileFlag, ofString], hflag⟩
  · decide

theorem fileFlag_composeWords (m : Mode) (request : Path) (hd : d.isAbsolute = true) :
    (composeWords d m request).filterMap (Text.after? fileFlag) = [request.text] := by
  have habsolute {p : Path} (hp : p.isAbsolute = true) : Text.after? fileFlag p.text = none := by
    have hh := Path.head?_text hp
    cases ht : p.text with
    | nil => rfl
    | cons c t =>
      rw [ht] at hh
      obtain rfl : c = Path.slash := Option.some.inj hh
      rfl
  have htask : Text.after? fileFlag (task m) = none := by cases m <;> decide
  have hgradlew : (Toolchain.wrapperExecutable d).isAbsolute = true := hd
  have hp : Text.after? fileFlag (ofString "-p") = none := by decide
  have hq : Text.after? fileFlag (ofString "-q") = none := by decide
  simp [composeWords, habsolute hd, habsolute hgradlew, htask, hp, hq,
    Text.after?_append]

theorem tidy_composeRequestPath (cwd : WideText) : (composeRequestPath cwd).Tidy :=
  (Path.tidy_ofText cwd).join (Path.tidy_ofText _)

theorem unbroken_composeRequestPath (h : ∀ c ∈ cwd, ¬ Text.isBlank c) :
    (composeRequestPath cwd).Unbroken :=
  (Path.unbroken_ofText h).join (Path.unbroken_ofText (by decide))

end Descriptor

namespace Call
open Descriptor

variable {w : Workplace} {env : Environment} {c : Call} {s : Script} {config : Config} {d : Path}
  {log : Log} {report : Report} {sp : Spawn}

theorem get_compose {name : WideText} (h : name = ofText BuiltIn.compose.name) :
    Registry.builtIn.get (.ofText name) = .ok .compose := by
  rw [h]
  rfl

def composeJob (c : Call) (d : Path) (request : Request) : Job :=
  ⟨Text.joinWith [.char ' '] (composeWords d request.mode (composeRequestPath c.cwd)), c.cwd, request,
    some (composeRequestPath c.cwd), Log.parser, c.started, c.ended⟩

theorem plan_of_compose {p : Plan} (hconfig : Config.validate c.config = .ok config)
    (hparser : config.parser = ofText BuiltIn.compose.name)
    (hd : Toolchain.gradleWrapper w.files c.cwd config.gradleWrapper = .ok (d, log))
    (h : plan w .builtIn c = .ok p) : ∃ request, Request.ofJson c.request = .ok request ∧
      p.job = composeJob c d request := by
  obtain ⟨config', request, descriptor, command, log', hc, hrequest, hg, hcommand, rfl⟩ := plan_cases h
  cases hconfig.symm.trans hc
  cases (get_compose hparser).symm.trans hg
  cases (composeCommand_eq request.mode hd).symm.trans hcommand
  exact ⟨request, hrequest, rfl⟩

theorem join_composeRequestPath {cwd : WideText}
    (h : (Path.ofText cwd).isAbsolute = true ∨ (Path.ofText cwd).names = []) :
    (Path.ofText cwd).join (composeRequestPath cwd) = composeRequestPath cwd := by
  have hrequest : composeRequestPath cwd = ⟨(Path.ofText cwd).anchor,
      (Path.ofText cwd).names ++ (Path.ofText composeRequestFile).names⟩ := rfl
  rcases h with h | h
  · exact if_pos h
  · unfold Path.join
    split
    · rfl
    · rw [hrequest, h]
      rfl

/-- The path that a Gradle task is given leads to its request from the current directory of the
caller, and from the working directory of the task if that is given by an absolute path or is the
current directory itself. -/
theorem compose_path_leads_to_request (hconfig : Config.validate c.config = .ok config)
    (hparser : config.parser = ofText BuiltIn.compose.name)
    (hcwd : ∀ x ∈ c.cwd, ¬ Text.isBlank x)
    (hd : Toolchain.gradleWrapper w.files c.cwd config.gradleWrapper = .ok (d, log))
    (hblank : ∀ x ∈ d.text, ¬ Text.isBlank x)
    (hrun : (c.run w env .builtIn s).run = some report) (hs : report.spawn = some sp) :
    ∃ request t u, Request.ofJson c.request = .ok request ∧ request.render = .ok t ∧
      sp.arguments.filterMap (Text.after? fileFlag) = [u] ∧ sp.cwd = c.cwd ∧
      sp.files.read? (.ofText u) = some (Text.toUtf8 t) ∧
      ((Path.ofText c.cwd).isAbsolute = true ∨ (Path.ofText c.cwd).names = [] →
        sp.files.read? ((Path.ofText sp.cwd).join (.ofText u)) = some (Text.toUtf8 t)) := by
  obtain ⟨p, hp, rfl⟩ := run_cases hrun
  obtain ⟨request, hr, hj⟩ := plan_of_compose hconfig hparser hd hp
  obtain ⟨t, ha⟩ := Run.asks_of_spawn hs
  rw [hj] at ha
  have hread : sp.files.read? (composeRequestPath c.cwd) = some (Text.toUtf8 t) := ha.read? rfl
  have hwords : sp.arguments = composeWords d request.mode (composeRequestPath c.cwd) := by
    rw [ha.spawn]
    exact words_composeWords _ (Path.unbroken_iff.mpr hblank) (unbroken_composeRequestPath hcwd)
  have hflag := fileFlag_composeWords request.mode (composeRequestPath c.cwd)
    (Toolchain.isAbsolute_of_gradleWrapper hd)
  have hplace : sp.cwd = c.cwd := by
    rw [ha.spawn]
    rfl
  refine ⟨request, t, (composeRequestPath c.cwd).text, hr, ha.rendered, ?_, hplace, ?_, fun h => ?_⟩
  · rw [hwords, hflag]
  · rw [Path.ofText_text (tidy_composeRequestPath c.cwd)]
    exact hread
  · rw [Path.ofText_text (tidy_composeRequestPath c.cwd), hplace, join_composeRequestPath h]
    exact hread

def obedient : Script := ⟨"\x7b\x7d".toUTF8.toList, [], 0, none, none, false, false⟩

/-- A project with a Gradle wrapper below the current directory, and a link to it. -/
def composeWorkplace : Workplace where
  files := ⟨[(.ofString "home", .folder [(.ofString "proj", .folder [(.ofString "gradlew", .file [])]),
      (.ofString "link", .link (.ofString "proj"))])], [.ofString "home"], by decide, rfl⟩
  interpreter := .ofString "python"

def composeCall (cwd : WideText) : Call where
  config := .object (some (.value (.str (ofText BuiltIn.compose.name)))) []
  request := .obj [(ofText Request.modeKey, .ofText Mode.create.name)]
  cwd := cwd
  limit := none
  started := .whole 0
  ended := .whole 0

def composeSpawn? (cwd : WideText) : Option Spawn :=
  ((composeCall cwd).run composeWorkplace .start .builtIn obedient).run.bind Report.spawn

def linkedCwd : WideText := .ofString "/home/link/../link"

def projectPath : Path := ⟨.root, [.ofString "home", .ofString "proj"]⟩

theorem gradleWrapper_linkedCwd : ∃ log,
    Toolchain.gradleWrapper composeWorkplace.files linkedCwd none = .ok (projectPath, log) := by
  have h : (Toolchain.gradleWrapper composeWorkplace.files linkedCwd none).toOption.map (·.1) =
      some projectPath := by decide +kernel
  cases hg : Toolchain.gradleWrapper composeWorkplace.files linkedCwd none with
  | error e =>
    rw [hg] at h
    cases h
  | ok found =>
    obtain ⟨d, log⟩ := found
    rw [hg] at h
    obtain rfl : d = projectPath := Option.some.inj h
    exact ⟨log, rfl⟩

theorem compose_path_leads_through_link : ∃ sp u, composeSpawn? linkedCwd = some sp ∧
    sp.arguments.filterMap (Text.after? fileFlag) = [u] ∧
    sp.files.read? ((Path.ofText sp.cwd).join (.ofText u)) =
      some (Text.toUtf8 "\x7b\"mode\":\"CREATE\"\x7d".toList) := by
  have hspawn : (composeSpawn? linkedCwd).isSome = true := by decide +kernel
  obtain ⟨sp, hsp⟩ := Option.isSome_iff_exists.mp hspawn
  obtain ⟨report, hrun, hs⟩ := Option.bind_eq_some_iff.mp hsp
  obtain ⟨log, hd⟩ := gradleWrapper_linkedCwd
  have hconfig : Config.validate (composeCall linkedCwd).config =
      .ok ⟨ofText BuiltIn.compose.name, none, none, none, [Config.parserKey], []⟩ := by rfl
  obtain ⟨request, t, u, hr, ht, hu, -, -, hread⟩ := compose_path_leads_to_request hconfig rfl
    (by decide) hd (by decide) hrun hs
  have hrequest : Request.ofJson (composeCall linkedCwd).request = .ok ⟨.create, []⟩ := by rfl
  cases hrequest.symm.trans hr
  have hrender : Request.render ⟨.create, []⟩ = .ok "\x7b\"mode\":\"CREATE\"\x7d".toList := by rfl
  cases hrender.symm.trans ht
  exact ⟨sp, u, hsp, hu, hread (by decide)⟩

/-- Behind a relative working directory the path leads elsewhere, and there is nothing. -/
theorem compose_path_misses_request : ∃ sp u, composeSpawn? (.ofString "proj") = some sp ∧
    sp.arguments.filterMap (Text.after? fileFlag) = [u] ∧
    u = WideText.ofString "proj/tmp/codelink-parser-input.json.tmp" ∧
    sp.files.read? (.ofText u) = some (Text.toUtf8 "\x7b\"mode\":\"CREATE\"\x7d".toList) ∧
    sp.files.read? ((Path.ofText sp.cwd).join (.ofText u)) = none := by
  have h : (composeSpawn? (.ofString "proj")).map (fun sp =>
      (sp.arguments.filterMap (Text.after? fileFlag),
        sp.files.read? (.ofText (.ofString "proj/tmp/codelink-parser-input.json.tmp")),
        sp.files.read? ((Path.ofText sp.cwd).join
          (.ofText (.ofString "proj/tmp/codelink-parser-input.json.tmp"))))) =
      some ([WideText.ofString "proj/tmp/codelink-parser-input.json.tmp"],
        some (Text.toUtf8 "\x7b\"mode\":\"CREATE\"\x7d".toList), none) := by decide +kernel
  obtain ⟨sp, hs, h⟩ := Option.map_eq_some_iff.mp h
  simp only [Prod.mk.injEq] at h
  exact ⟨sp, _, hs, h.1, rfl, h.2.1, h.2.2⟩

end Call
end ParserRelay
