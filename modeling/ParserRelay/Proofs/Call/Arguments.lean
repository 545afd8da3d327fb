import ParserRelay.Proofs.Call.ComposeRequest
import ParserRelay.Proofs.Toolchain.Wrapper
/-!
# The arguments of a command

A command is its arguments with single blanks between them, and it is cut at white space. So the
arguments come out as they are meant exactly if no path that stands in them has white space in it.
-/
namespace ParserRelay
open WideText (ofString ofText)

namespace Descriptor

variable {w : Workplace} {cwd : WideText} {config : Config} {mode : Json} {d : Descriptor}
  {command : WideText} {log : Log} {args : List WideText} {paths : List Path}

def packageWords (d : Path) : List WideText :=
  [ofString "swift", ofString "run", ofString "--package-path", d.text, ofString "figma-swift"]

/-- The arguments that a Swift or a Gradle command is meant to give, with the paths in them. -/
inductive Means (w : Workplace) (cwd : WideText) (config : Config) (mode : Json) :
    Descriptor → List WideText → List Path → Prop
  | prebuilt {t : WideText} {base : Path} : Toolchain.setting? config.customSwiftCli = some t →
      Toolchain.canonical w.files cwd = .ok base →
      Means w cwd config mode swift [(base.join (.ofText t)).text] [base.join (.ofText t)]
  | package {found : Path} {log : Log} : Toolchain.setting? config.customSwiftCli = none →
      Toolchain.swiftPackage w.files cwd config.xcodeproj = .ok (found, log) →
      Means w cwd config mode swift (packageWords found) [found]
  | tasks {found request : Path} {log : Log} {m : Mode} :
      Toolchain.gradleWrapper w.files cwd config.gradleWrapper = .ok (found, log) →
      Mode.ofJson? mode = some m → compose.requestPath cwd = some request →
      Means w cwd config mode compose (composeWords found m request) [found, request]

theorem Means.unbroken_iff (h : Means w cwd config mode d args paths) :
    (∀ t ∈ args, t ≠ [] ∧ ∀ c ∈ t, ¬ Text.isBlank c) ↔ ∀ p ∈ paths, p.Unbroken := by
  cases h with
  | prebuilt ht hbase => simp [Path.unbroken_iff, Path.text_ne_nil]
  | @package found log ht hfound =>
    constructor
    · intro h p hp
      rw [List.mem_singleton.mp hp]
      exact Path.unbroken_iff.mpr (h found.text (by simp [packageWords])).2
    · intro h t ht
      have hfound : found.Unbroken := h found (by simp)
      simp only [packageWords, List.mem_cons, List.not_mem_nil, or_false] at ht
      rcases ht with rfl | rfl | rfl | rfl | rfl
      · decide
      · decide
      · decide
      · exact ⟨Path.text_ne_nil found, Path.unbroken_iff.mp hfound⟩
      · decide
  | @tasks found request log m hfound hm hrequest =>
    constructor
    · intro h p hp
      have hflag := (h (fileFlag ++ request.text) (by simp [composeWords])).2
      simp only [List.mem_cons, List.not_mem_nil, or_false] at hp
      rcases hp with rfl | rfl
      · exact Path.unbroken_iff.mpr (h _ (by simp [composeWords])).2
      · exact Path.unbroken_iff.mpr fun c hc => hflag c (List.mem_append_right _ hc)
    · intro h t ht
      have hwords := words_composeWords m (h found (by simp)) (h request (by simp))
      rw [← hwords] at ht
      exact Text.not_blank_of_mem_words ht

end Descriptor
end ParserRelay
