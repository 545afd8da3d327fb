import ParserRelay.Proofs.Call.Answer
import ParserRelay.Proofs.Environment.StreamLimit
import ParserRelay.Session
/-!
# The limits of a session

Every process of a session is asked for with the limit that was given for it, or else with that of one
setting: an entry of the last mapping if this mapping alone counts, and a variable of the process
otherwise. What a session did before shows in nothing else.
-/
namespace ParserRelay
open WideText (ofString)

/-- The limit that a step gives, or zero if it gives none. -/
def Step.limit : Step → Int
  | .run limit _ _ => limit.getD 0
  | .call _ c _ => c.limit.getD 0
  | _ => 0

def Step.mapping? : Step → Option (Entries (Option WideText))
  | .reload mapping => some mapping
  | _ => none

def Answer.spawn? : Answer → Option Spawn
  | .ran r => r.spawn
  | .called r => r.run.bind Report.spawn
  | _ => none

namespace Environment

variable {env after : Environment} {key value : WideText}

theorem mapping_setVariable (h : env.setVariable key value = .ok after) :
    after.mapping = env.mapping := by
  obtain ⟨-, -, h⟩ := Toolchain.eq_ok_of_bind h
  obtain ⟨-, -, h⟩ := Toolchain.eq_ok_of_bind h
  split at h
  · cases h
  · split at h
    · cases h
    · split at h
      · cases h
      · cases h
        rfl

theorem mapping_unsetVariable (h : env.unsetVariable key = .ok after) :
    after.mapping = env.mapping := by
  obtain ⟨-, -, h⟩ := Toolchain.eq_ok_of_bind h
  cases h
  rfl

end Environment

namespace Host
open Environment (limitOf limitSetting? defaultLimit)

variable {h : Host} {step : Step} {session : List Step} {i : Nat} {given : Int} {spawn : Spawn}

theorem mapping_withVariables {result : Except Environment.VariableError Environment}
    (hr : ∀ env, result = .ok env → env.mapping = h.environment.mapping) :
    (h.withVariables result).1.environment.mapping = h.environment.mapping := by
  cases result with
  | error e => rfl
  | ok env => exact hr env rfl

theorem mapping_step (h : Host) (hs : ∀ file, step ≠ .reloadFile file) :
    (h.step step).1.environment.mapping = step.mapping?.getD h.environment.mapping := by
  cases step with
  | setVariable key value => exact mapping_withVariables fun _ => Environment.mapping_setVariable
  | unsetVariable key => exact mapping_withVariables fun _ => Environment.mapping_unsetVariable
  | reload mapping => rfl
  | reloadFile file => exact absurd rfl (hs file)
  | plant path what => rfl
  | remove path => rfl
  | run limit job script => rfl
  | call registry c script => rfl

def lastMapping (start : Entries (Option WideText)) (session : List Step) :
    Entries (Option WideText) :=
  (session.filterMap Step.mapping?).getLast?.getD start

theorem mapping_steps (h : Host) (hs : ∀ file, .reloadFile file ∉ session) :
    (h.steps session).1.environment.mapping = lastMapping h.environment.mapping session := by
  induction session generalizing h with
  | nil => rfl
  | cons step rest ih =>
    have hstep := h.mapping_step fun file he => hs file (he ▸ List.mem_cons_self)
    have hrest := ih (h.step step).1 fun file hm => hs file (List.mem_cons_of_mem step hm)
    rw [steps, hrest, hstep]
    cases hm : step.mapping? with
    | none => rw [lastMapping, lastMapping, List.filterMap_cons_none hm, Option.getD_none]
    | some mapping =>
      rw [lastMapping, lastMapping, List.filterMap_cons_some hm, List.getLast?_cons,
        Option.getD_some, Option.getD_some]

theorem answers_getElem? (h : Host) (session : List Step) (i : Nat) : (h.steps session).2[i]? =
    session[i]?.map fun step => ((h.steps (session.take i)).1.step step).2 := by
  induction session generalizing h i with
  | nil => rfl
  | cons step rest ih =>
    cases i with
    | zero => rfl
    | succ i => exact ih (h.step step).1 i

theorem spawn?_withVariables (h : Host) (result : Except Environment.VariableError Environment) :
    (h.withVariables result).2.spawn? = none := by
  cases result <;> rfl

theorem spawn?_withFiles (h : Host) (c : FileSystem.Change) : (h.withFiles c).2.spawn? = none := by
  obtain ⟨after, failure⟩ := c
  cases failure <;> rfl

theorem limit_step (hs : (h.step step).2.spawn? = some spawn) : spawn.limit =
    if step.limit = 0 then limitOf (limitSetting? h.environment.mapping h.environment.process)
    else step.limit := by
  cases step with
  | setVariable key value => cases (h.spawn?_withVariables _).symm.trans hs
  | unsetVariable key => cases (h.spawn?_withVariables _).symm.trans hs
  | reload mapping => cases hs
  | reloadFile file =>
    rcases hl : h.environment.reloadFile file with ⟨after, failure⟩
    simp only [Host.step, hl] at hs
    cases failure <;> cases hs
  | plant path what => cases (h.spawn?_withFiles _).symm.trans hs
  | remove path => cases (h.spawn?_withFiles _).symm.trans hs
  | run limit job script =>
    obtain ⟨t, ha⟩ := Run.asks_of_spawn hs
    rw [ha.spawn]
    exact h.environment.limitFor_eq limit
  | call registry c script =>
    obtain ⟨report, hreport, hspawn⟩ := Option.bind_eq_some_iff.mp hs
    obtain ⟨p, -, rfl⟩ := Call.run_cases hreport
    obtain ⟨t, ha⟩ := Run.asks_of_spawn hspawn
    rw [ha.spawn]
    exact h.environment.limitFor_eq c.limit

/-- A process that is asked for in a session at the given place, where a limit was given or, with
zero, none. The settings of the session came from no file. -/
structure Asked (h : Host) (session : List Step) (i : Nat) (given : Int) (spawn : Spawn) : Prop where
  spawn : (h.steps session).2[i]?.bind Answer.spawn? = some spawn
  given : session[i]?.map Step.limit = some given
  settled : ∀ file, .reloadFile file ∉ session.take i

/-- The setting that decides at a place of a session, by the last mapping before it. -/
def setting? (h : Host) (session : List Step) (i : Nat) : Option WideText :=
  limitSetting? (lastMapping h.environment.mapping (session.take i))
    (h.steps (session.take i)).1.environment.process

theorem Asked.limit (ha : Asked h session i given spawn) :
    spawn.limit = if given = 0 then limitOf (h.setting? session i) else given := by
  have hspawn := ha.spawn
  rw [answers_getElem?] at hspawn
  obtain ⟨answer, hanswer, hs⟩ := Option.bind_eq_some_iff.mp hspawn
  obtain ⟨step, hstep, rfl⟩ := Option.map_eq_some_iff.mp hanswer
  have hgiven := ha.given
  rw [hstep] at hgiven
  cases hgiven
  rw [limit_step hs, mapping_steps h ha.settled, setting?]

/-- The limit of each process of a session is the one that was given if it is not zero. Otherwise it is
positive and comes from one setting, without which it is the default; and in any other session in
which the same setting decides it is the same. -/
theorem limit_comes_from_one_setting (ha : Asked h session i given spawn) :
    (given ≠ 0 → spawn.limit = given) ∧
    (given = 0 → 1 ≤ spawn.limit ∧ spawn.limit = limitOf (h.setting? session i) ∧
      (h.setting? session i = none → spawn.limit = defaultLimit) ∧
      ∀ h' session' j spawn', Asked h' session' j 0 spawn' →
        h'.setting? session' j = h.setting? session i → spawn'.limit = spawn.limit) := by
  have hlimit := ha.limit
  constructor
  · intro hg
    rw [hlimit, if_neg hg]
  · intro hg
    rw [if_pos hg] at hlimit
    refine ⟨?_, hlimit, fun hnone => ?_, fun h' session' j spawn' ha' hsame => ?_⟩
    · rw [hlimit]
      exact Environment.one_le_limitOf _
    · rw [hlimit, hnone, Environment.limitOf_none]
    · rw [ha'.limit, if_pos rfl, hsame, hlimit]

def plainHost : Host := ⟨.empty, .start, ofString "python"⟩

def plainRun (limit : Option Int) : Step := .run limit Run.pipedJob Run.stubborn

/-- In the first two sessions the last mapping alone counts and its entry for the limit has no value or
is missing; in the third one the mapping does not count. -/
def forcedSession : List Step :=
  [.setVariable Environment.limitKey (ofString "5"),
    .reload [(Environment.limitKey, none), (Environment.forceKey, some (ofString " TRUE\n"))],
    .setVariable Environment.limitKey (ofString "7"), plainRun none]

def otherForcedSession : List Step :=
  [.reload [(Environment.forceKey, some (ofString "no")), (Environment.limitKey, some (ofString "3"))],
    .reload [(Environment.forceKey, some (ofString "true"))], plainRun (some 0)]

def freeSession : List Step :=
  [.setVariable Environment.limitKey (ofString " 12 "),
    .reload [(Environment.forceKey, some (ofString "yes")), (Environment.limitKey, some (ofString "3"))],
    .call Call.echoRegistry Call.echoCall Call.complaining]

theorem forced_sessions_share_limit : ∃ spawn spawn' free,
    Asked plainHost forcedSession 3 0 spawn ∧ Asked plainHost otherForcedSession 2 0 spawn' ∧
    Asked plainHost freeSession 2 0 free ∧
    spawn.limit = defaultLimit ∧ spawn'.limit = defaultLimit ∧ free.limit = 12 := by
  have hspawn : ((plainHost.steps forcedSession).2[3]?.bind Answer.spawn?).isSome = true := by
    decide +kernel
  have hspawn' : ((plainHost.steps otherForcedSession).2[2]?.bind Answer.spawn?).isSome = true := by
    decide +kernel
  have hfree : ((plainHost.steps freeSession).2[2]?.bind Answer.spawn?).isSome = true := by
    decide +kernel
  obtain ⟨spawn, hspawn⟩ := Option.isSome_iff_exists.mp hspawn
  obtain ⟨spawn', hspawn'⟩ := Option.isSome_iff_exists.mp hspawn'
  obtain ⟨free, hfree⟩ := Option.isSome_iff_exists.mp hfree
  have ha : Asked plainHost forcedSession 3 0 spawn := ⟨hspawn, rfl, by simp [forcedSession]⟩
  have ha' : Asked plainHost otherForcedSession 2 0 spawn' :=
    ⟨hspawn', rfl, by simp [otherForcedSession]⟩
  have hafree : Asked plainHost freeSession 2 0 free := ⟨hfree, rfl, by simp [freeSession]⟩
  have hnone : plainHost.setting? forcedSession 3 = none := by decide +kernel
  have hnone' : plainHost.setting? otherForcedSession 2 = none := by decide +kernel
  have htwelve : limitOf (plainHost.setting? freeSession 2) = 12 := by decide +kernel
  obtain ⟨-, hdefault, hothers⟩ := (limit_comes_from_one_setting ha).2 rfl |>.2
  refine ⟨spawn, spawn', free, ha, ha', hafree, hdefault hnone, ?_, ?_⟩
  · rw [hothers _ _ _ _ ha' (hnone'.trans hnone.symm), hdefault hnone]
  · rw [((limit_comes_from_one_setting hafree).2 rfl).2.1, htwelve]

end Host
end ParserRelay
