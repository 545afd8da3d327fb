import ParserRelay.Hint.Phrase
/-! Advice on failed Gradle runs, which all end with the same exit code: the error text is searched
for known phrases, and the first entry of the table that occurs gives the advice. -/
namespace ParserRelay.Hint
open WideText (ofString)

structure Entry where
  test : WideText → Bool
  advice : Text

def missingTask (t : WideText) : Bool := match phrase? (ofString "task") t with
  | some r => endsWord r && laterInLine (ofString "not found") (.char 'k') r
  | none => false

def anyPhrase (phrases : List String) (t : WideText) : Bool :=
  phrases.any fun p => startsWith (ofString p) t

def requiredJava (t : WideText) : Bool := match phrase? (ofString "requires Java ") t with
  | some (c :: _) => Text.isDigit c
  | _ => false

def coordinate (t : WideText) : Bool :=
  let part := fun c => Text.isWordChar c || c = .char '.' || c = .char '-'
  (match t with
    | c :: _ => part c
    | [] => false) && (t.dropWhile part).head? = some (.char ':')

def unresolved (t : WideText) : Bool := match phrase? (ofString "Could not resolve ") t with
  | none => false
  | some r =>
    let kinds := ["dependencies", "files", "artifacts"]
    anyPhrase kinds r || coordinate r || match phrase? (ofString "all ") r with
      | some r => anyPhrase kinds r
      | none => false

/-- The known failures, the most telling first. -/
def composeTable : List Entry := [
  ⟨missingTask, ("The Code Connect Gradle tasks are not available. Make sure the Code Connect Gradle "
    ++ "plugin is applied to the module containing your components and that gradleWrapperPath points "
    ++ "at the right project.").toList⟩,
  ⟨anyPhrase ["SDK location not found", "ANDROID_HOME", "ANDROID_SDK_ROOT"],
    ("Gradle could not find the Android SDK. Set ANDROID_HOME or add sdk.dir to "
    ++ "local.properties.").toList⟩,
  ⟨fun t => anyPhrase ["Unsupported class file major version", "incompatible with Java", "JAVA_HOME"] t
      || requiredJava t,
    ("Gradle is running with an unsupported JDK. Point JAVA_HOME at a JDK supported by your Android "
    ++ "Gradle Plugin version.").toList⟩,
  ⟨unresolved, ("Gradle failed to resolve dependencies. Check your network connection and repository "
    ++ "configuration, then try running the build once outside of Code Connect.").toList⟩,
  ⟨anyPhrase ["GradleWrapperMain", "gradle-wrapper.jar"],
    ("The Gradle wrapper is incomplete. Regenerate it with `gradle wrapper` and commit "
    ++ "gradle-wrapper.jar.").toList⟩,
  ⟨anyPhrase ["permission denied"],
    "The Gradle wrapper is not executable. Run `chmod +x gradlew` in your project.".toList⟩]

def compose? (stderr : WideText) : Option Text :=
  (composeTable.find? fun e => somewhere e.test stderr).map Entry.advice

end ParserRelay.Hint
