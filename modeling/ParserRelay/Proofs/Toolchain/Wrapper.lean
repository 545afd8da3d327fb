import ParserRelay.Proofs.FileSystem.Contents
import ParserRelay.Proofs.Toolchain.Absolute
import ParserRelay.Registry.Descriptor
/-!
# The script of a wrapper directory

The search takes a directory for either form of the wrapper, the command always names the script.
So the script that a command names is there, unless the directory holds the batch form alone.
-/
namespace ParserRelay
open WideText (ofString)

namespace Toolchain

variable {fs : FileSystem} {w : Workplace} {cwd t : WideText} {config : Config}
  {setting : Option WideText} {base d : Path} {log : Log}

theorem script_or_batch (h : holdsWrapper fs d = .ok true) :
    fs.isFile (d.child wrapperScript) = .ok true ∨
    fs.isFile (d.child wrapperScript) = .ok false ∧ fs.isFile (d.child wrapperBatch) = .ok true := by
  unfold holdsWrapper at h
  split at h
  · rename_i hs
    exact .inr ⟨hs, h⟩
  · exact .inl h

theorem holdsWrapper_of_namedWrapper (h : namedWrapper fs base t = .ok d) :
    holdsWrapper fs d = .ok true := by
  obtain ⟨named, -, h⟩ := eq_ok_of_bind h
  obtain ⟨isFile, -, h⟩ := eq_ok_of_bind h
  obtain ⟨found, hf, h⟩ := eq_ok_of_bind h
  cases found with
  | true =>
    cases h
    exact eq_ok_of_files hf
  | false => cases h

theorem holdsWrapper_of_gradleWrapper (h : gradleWrapper fs cwd setting = .ok (d, log)) :
    holdsWrapper fs d = .ok true := by
  obtain ⟨base, -, h⟩ := eq_ok_of_bind h
  split at h
  · obtain ⟨named, hn, h⟩ := eq_ok_of_bind h
    cases h
    exact holdsWrapper_of_namedWrapper hn
  · obtain ⟨found, hf, h⟩ := eq_ok_of_bind h
    cases found with
    | some found =>
      cases h
      exact (mem_of_first? (eq_ok_of_files hf)).2
    | none => cases h

theorem executable_prefix {mode : Json} {command : WideText} {log' : Log}
    (hd : gradleWrapper w.files cwd config.gradleWrapper = .ok (d, log))
    (h : Descriptor.composeCommand w cwd config mode = .ok (command, log')) :
    (wrapperExecutable d).text ++ [.char ' '] <+: command := by
  obtain ⟨found, hfound, h⟩ := eq_ok_of_bind h
  cases hd.symm.trans hfound
  dsimp only at h
  split at h
  · cases h
  · cases h
    have hblank : ofString " -p " = CodePoint.char ' ' :: ofString "-p " := by decide
    simp only [List.append_assoc, hblank, List.cons_append]
    exact (List.prefix_append_right_inj _).mpr (List.cons_prefix_cons.mpr ⟨rfl, List.nil_prefix⟩)

/-- The script that a Gradle command begins with is a file, or else the directory found holds the
batch form and no script. -/
theorem script_there_or_batch_alone
    (h : gradleWrapper w.files cwd config.gradleWrapper = .ok (d, log)) :
    ((∃ content, w.files.stat (wrapperExecutable d) = .ok (.file content)) ∨
      w.files.isFile (wrapperExecutable d) = .ok false ∧
        ∃ content, w.files.stat (d.child wrapperBatch) = .ok (.file content)) ∧
    ∀ mode command log', Descriptor.composeCommand w cwd config mode = .ok (command, log') →
      (wrapperExecutable d).text ++ [.char ' '] <+: command := by
  refine ⟨?_, fun mode command log' hc => executable_prefix h hc⟩
  rcases script_or_batch (holdsWrapper_of_gradleWrapper h) with hs | ⟨hs, hb⟩
  · exact .inl (FileSystem.stat_of_isFile hs)
  · exact .inr ⟨hs, FileSystem.stat_of_isFile hb⟩

section Samples

def sampleWorkplace : Workplace where
  files := ⟨[(ofString "shared", .folder [(ofString "run", .file [])]),
      (ofString "linked", .folder [(ofString "gradlew", .link (ofString "../shared/run"))]),
      (ofString "batch", .folder [(ofString "gradlew.bat", .file [])])], [], by decide, rfl⟩
  interpreter := ofString "python"

def sampleConfig : Config := ⟨ofString "compose", none, none, none, [], []⟩

def sampleMode : Json := .ofText Mode.create.name

def linkedPath : Path := ⟨.root, [ofString "linked"]⟩

def batchPath : Path := ⟨.root, [ofString "batch"]⟩

theorem eq_ok_of_first {ε α β : Type} {x : Except ε (α × β)} {a : α}
    (h : x.toOption.map (·.1) = some a) : ∃ b, x = .ok (a, b) := by
  obtain ⟨⟨a', b⟩, hx, rfl⟩ := Option.map_eq_some_iff.mp h
  cases x with
  | error e => cases hx
  | ok y => exact ⟨b, by rw [Option.some.inj hx]⟩

theorem linked_script_there : ∃ log content command log',
    gradleWrapper sampleWorkplace.files (ofString "/linked") sampleConfig.gradleWrapper =
      .ok (linkedPath, log) ∧
    sampleWorkplace.files.stat (wrapperExecutable linkedPath) = .ok (.file content) ∧
    Descriptor.composeCommand sampleWorkplace (ofString "/linked") sampleConfig sampleMode =
      .ok (command, log') ∧
    (wrapperExecutable linkedPath).text ++ [.char ' '] <+: command := by
  have hfound : (gradleWrapper sampleWorkplace.files (ofString "/linked")
      sampleConfig.gradleWrapper).toOption.map (·.1) = some linkedPath := by decide +kernel
  have hcommand : (Descriptor.composeCommand sampleWorkplace (ofString "/linked") sampleConfig
      sampleMode).toOption.isSome := by decide +kernel
  have hscript : (sampleWorkplace.files.isFile (wrapperExecutable linkedPath)).toOption =
      some true := by decide +kernel
  obtain ⟨log, h⟩ := eq_ok_of_first hfound
  obtain ⟨⟨command, log'⟩, hc⟩ := Option.isSome_iff_exists.mp hcommand
  obtain ⟨log', hc⟩ := eq_ok_of_first (Option.map_eq_some_iff.mpr ⟨_, hc, rfl⟩)
  obtain ⟨hfile, hnames⟩ := script_there_or_batch_alone h
  rcases hfile with ⟨content, hfile⟩ | ⟨hs, -⟩
  · exact ⟨log, content, command, log', h, hfile, hc, hnames _ _ _ hc⟩
  · rw [hs] at hscript
    cases hscript

/-- With the batch form alone the command begins with a script that is not there. -/
theorem batch_alone_taken : ∃ log log',
    gradleWrapper sampleWorkplace.files (ofString "/batch") sampleConfig.gradleWrapper =
      .ok (batchPath, log) ∧
    sampleWorkplace.files.stat (wrapperExecutable batchPath) = .error .noEntry ∧
    Descriptor.composeCommand sampleWorkplace (ofString "/batch") sampleConfig sampleMode =
      .ok (ofString ("/batch/gradlew -p /batch createCodeConnect " ++
        "-PfilePath=/batch/tmp/codelink-parser-input.json.tmp -q"), log') := by
  have hfound : (gradleWrapper sampleWorkplace.files (ofString "/batch")
      sampleConfig.gradleWrapper).toOption.map (·.1) = some batchPath := by decide +kernel
  have hcommand : (Descriptor.composeCommand sampleWorkplace (ofString "/batch") sampleConfig
      sampleMode).toOption.map (·.1) =
      some (ofString ("/batch/gradlew -p /batch createCodeConnect " ++
        "-PfilePath=/batch/tmp/codelink-parser-input.json.tmp -q")) := by decide +kernel
  have hmissing : sampleWorkplace.files.stat (wrapperExecutable batchPath) = .error .noEntry := by
    decide +kernel
  obtain ⟨log, h⟩ := eq_ok_of_first hfound
  obtain ⟨log', hc⟩ := eq_ok_of_first hcommand
  exact ⟨log, log', h, hmissing, hc⟩

end Samples

end Toolchain
end ParserRelay
