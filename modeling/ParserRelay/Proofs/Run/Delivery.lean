import ParserRelay.Proofs.FileSystem.Contents
import ParserRelay.Proofs.Run.ProcessLife
import ParserRelay.Proofs.Run.RequestFile
/-!
# The delivery of a request

A request reaches its process on the input or in a file, never by both, and the bytes are the same.
The file is there before the process is asked for; the input is written once, and whether the flush
fails comes too late to change that.
-/
namespace ParserRelay.Run
open FileSystem

variable {files : FileSystem} {limit : Int} {job : Job} {s : Script} {p : Path} {t : Text}
  {content : Bytes} {sp : Spawn} {c : Child}

theorem read?_prepare (h : (prepare files p content).failure = none) :
    (prepare files p content).after.read? p = some content := by
  obtain ⟨hw, ha⟩ := prepare_cases h
  rw [ha]
  exact read?_write hw

theorem stat_prepare (h : (prepare files p content).failure = none) {q : Path}
    (hq : q ∈ p.parent.ancestry) : (prepare files p content).after.stat q = .ok .directory := by
  obtain ⟨hw, ha⟩ := prepare_cases h
  obtain ⟨l, hchanged, -⟩ := changed_write hw
  have hparent := stat_makeDirectories (makeDirectories_of_prepare h)
  rw [ha]
  exact stat_of_mem_ancestry (stat_keeps hchanged.here hchanged.keeps hparent) hq

theorem prepared_of_no_path (hp : job.requestPath = none) : prepared files job content = files := by
  rw [prepared, hp]

theorem prepared_of_path (hp : job.requestPath = some p) :
    prepared files job content = (prepare files p content).after := by
  rw [prepared, hp]

theorem Asks.channel_eq (h : Asks files limit job s t sp) :
    sp.channel = if job.requestPath.isSome then .null else .pipe := by
  rw [h.spawn]
  rfl

theorem Asks.files_eq (h : Asks files limit job s t sp) :
    sp.files = prepared files job (Text.toUtf8 t) := by
  rw [h.spawn]
  rfl

theorem Asks.read? (h : Asks files limit job s t sp) (hp : job.requestPath = some p) :
    sp.files.read? p = some (Text.toUtf8 t) := by
  rw [h.files_eq, prepared_of_path hp]
  exact read?_prepare (h.ready p hp)

theorem Asks.stat (h : Asks files limit job s t sp) (hp : job.requestPath = some p) {q : Path}
    (hq : q ∈ p.parent.ancestry) : sp.files.stat q = .ok .directory := by
  rw [h.files_eq, prepared_of_path hp]
  exact stat_prepare (h.ready p hp) hq

theorem served_of_child (hr : job.request.render = .ok t)
    (hc : (run files limit job s).child = some c) : Served job (Text.toUtf8 t) c := by
  obtain ⟨u, sp, ha, hchild⟩ := asks_of_child hc
  cases hr.symm.trans ha.rendered
  obtain ⟨failure, d, -, hd, rfl, -⟩ := left_of_child ha hchild
  have hfed : Served job (Text.toUtf8 t) d := hd.fed
  rw [Child.stop_eq]
  exact ⟨hfed.piped, hfed.filed⟩

/-- The request of a job reaches its process by exactly one channel: written once to the input, or
in the file as it is when the process is asked for, behind directories that are there by then. -/
theorem request_on_one_channel (h : (run files limit job s).spawn = some sp) :
    ∃ t, job.request.render = .ok t ∧
      (job.requestPath = none → sp.channel = .pipe ∧ sp.files = files ∧
        ∀ c, (run files limit job s).child = some c → c.written = [Text.toUtf8 t]) ∧
      ∀ p, job.requestPath = some p → sp.channel = .null ∧
        sp.files.read? p = some (Text.toUtf8 t) ∧
        (∀ q ∈ p.parent.ancestry, sp.files.stat q = .ok .directory) ∧
        ∀ c, (run files limit job s).child = some c → c.written = [] ∧ c.inputClosed = false := by
  obtain ⟨t, ha⟩ := asks_of_spawn h
  refine ⟨t, ha.rendered, fun hp => ⟨?_, ?_, fun c hc => ?_⟩, fun p hp => ⟨?_, ?_, ?_, fun c hc => ?_⟩⟩
  · rw [ha.channel_eq, hp]
    rfl
  · rw [ha.files_eq, prepared_of_no_path hp]
  · exact ((served_of_child ha.rendered hc).piped hp).1
  · rw [ha.channel_eq, hp]
    rfl
  · exact ha.read? hp
  · exact fun q hq => ha.stat hp hq
  · exact (served_of_child ha.rendered hc).filed p hp

/-- Something longer than the request is left from an earlier run. -/
def staleFiles : FileSystem := .atRoot
  [(.ofString "in.json", .file (Text.toUtf8 "\x7b\"mode\":\"PARSE\",\"files\":[]\x7d".toList))]

def stalePath : Path := .ofText (.ofString "in.json")

def staleJob : Job :=
  ⟨.ofString "parse", .ofString "/", ⟨.create, []⟩, some stalePath, Log.parser, .whole 0, .whole 0⟩

theorem stale_request_on_one_channel : ∃ sp, (run staleFiles 64 staleJob stubborn).spawn = some sp ∧
    sp.channel = .null ∧
    sp.files.read? stalePath = some (Text.toUtf8 "\x7b\"mode\":\"CREATE\"\x7d".toList) := by
  have hr : staleJob.request.render = .ok "\x7b\"mode\":\"CREATE\"\x7d".toList := by rfl
  have hready : Ready staleFiles staleJob (Text.toUtf8 "\x7b\"mode\":\"CREATE\"\x7d".toList) := by
    intro p hp
    cases hp
    decide +kernel
  have hs : (run staleFiles 64 staleJob stubborn).spawn = some _ :=
    spawn_of_ready (by decide) hr hready
  obtain ⟨t, ht, -, hfile⟩ := request_on_one_channel hs
  cases hr.symm.trans ht
  obtain ⟨hchannel, hread, -, -⟩ := hfile stalePath rfl
  exact ⟨_, hs, hchannel, hread⟩

end ParserRelay.Run
