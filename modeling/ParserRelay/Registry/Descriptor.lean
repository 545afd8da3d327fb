import ParserRelay.Config
import ParserRelay.Hint.Compose
import ParserRelay.Request
import ParserRelay.Toolchain
/-! How each parser is started: its command line, whether its request goes through a file, and what
advice its error text gives. -/
namespace ParserRelay

structure Workplace where
  files : FileSystem
  interpreter : WideText

abbrev Command := WideText × Log

structure Descriptor where
  name : WideText
  /-- Where the request is written, seen from the working directory, if not to standard input. -/
  requestFile : Option WideText
  command : Workplace → WideText → Config → Json → Except Failure Command
  hint : WideText → Option WideText

namespace Descriptor
open WideText (ofString ofText)

def requestPath (d : Descriptor) (cwd : WideText) : Option Path :=
  (Toolchain.setting? d.requestFile).map fun t => Path.join (Path.ofText cwd) (Path.ofText t)

/-- A descriptor that does not say how to run its parser. -/
def base : Descriptor := ⟨ofString "base", none, fun _ _ _ _ => .error .noCommand, fun _ => none⟩

def swiftCommand (w : Workplace) (cwd : WideText) (c : Config) : Except Failure Command :=
  match Toolchain.setting? c.customSwiftCli with
  | some t => do
    let d ← Toolchain.canonical w.files cwd
    .ok ((Path.join d (Path.ofText t)).text, [])
  | none => do
    let (d, log) ← Toolchain.swiftPackage w.files cwd c.xcodeproj
    .ok (ofString "swift run --package-path " ++ d.text ++ ofString " figma-swift", log)

def swift : Descriptor :=
  ⟨ofText BuiltIn.swift.name, none, fun w cwd c _ => swiftCommand w cwd c, fun _ => none⟩

def task : Mode → WideText
  | .create => ofString "createCodeConnect"
  | .parse => ofString "parseCodeConnect"

def composeRequestFile : WideText := ofString "tmp/codelink-parser-input.json.tmp"

def composeRequestPath (cwd : WideText) : Path :=
  Path.join (Path.ofText cwd) (Path.ofText composeRequestFile)

def composeCommand (w : Workplace) (cwd : WideText) (c : Config) (mode : Json) : Except Failure Command := do
  let (d, log) ← Toolchain.gradleWrapper w.files cwd c.gradleWrapper
  match Mode.ofJson? mode with
  | none => .error (.unknownMode mode)
  | some m => .ok ((Toolchain.wrapperExecutable d).text ++ ofString " -p " ++ d.text ++ ofString " " ++ task m
      ++ ofString " -PfilePath=" ++ (composeRequestPath cwd).text ++ ofString " -q", log)

/-- Gradle tasks cannot read standard input, so their request goes through a file. -/
def compose : Descriptor :=
  ⟨ofText BuiltIn.compose.name, some composeRequestFile, composeCommand, fun stderr =>
    if stderr.isEmpty then none else (Hint.compose? stderr).map ofText⟩

def unitTest : Descriptor :=
  ⟨ofText BuiltIn.unitTest.name, none,
    fun w _ _ _ => .ok (w.interpreter ++ ofString " parser/unit_test_parser.py", []), fun _ => none⟩

end Descriptor
end ParserRelay
