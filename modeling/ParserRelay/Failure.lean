import ParserRelay.Environment.Basic
import ParserRelay.FileSystem.Error
import ParserRelay.Json.Display
import ParserRelay.Json.Printer
import ParserRelay.Json.Reader
import ParserRelay.Outcome
import ParserRelay.Validation
/-! Everything that can go wrong between a configuration and a result, with the messages. -/
namespace ParserRelay

inductive Failure
  | invalid (issues : List Issue)
  | duplicateParser (name : WideText)
  | unknownParser (identifier : WideText) (valid : List WideText)
  | noSwiftPackage (start : Path)
  | noWrapperAt (directory : Path)
  | noWrapper (start : Path)
  | noCommand
  | unknownMode (value : Json)
  | emptyCommand
  | unwritableRequest (cause : Json.Unwritable)
  | file (e : FileError)
  | notStarted (kind : Text) (message : WideText)
  | notDelivered (kind : Text)
  | cancelled
  | exited (code : Int) (hint : Option WideText) (outcome : Option Outcome)
  | emptyResult (stdout : WideText)
  | undecodable (fault : Json.Fault) (stdout : WideText)
  | notAnObject (kind : Text) (stdout : WideText)
  | numberTooLong (limit digits : Nat)
  | tooDeep
  | variable (e : Environment.VariableError)

namespace Failure
open WideText (ofString ofText)

def exitMessage (code : Int) (hint : Option WideText) : WideText :=
  ofString "Parser exited with code " ++ ofText (Text.ofInt code) ++ match hint with
    | some h => if h.isEmpty then [] else ofString ": " ++ h
    | none => []

def message : Failure → WideText
  | .invalid issues => ofText (Text.joinWith ['\n'] (issues.map fun i => i.problem.message))
  | .duplicateParser name => ofString "Parser '" ++ name ++ ofString "' is registered more than once"
  | .unknownParser identifier valid => ofString "Invalid parser specified: \"" ++ identifier
      ++ ofString "\". Valid parsers are: " ++ Text.joinWith (ofString ", ") valid ++ ofString "."
  | .noSwiftPackage start =>
    ofString "Could not find a Package.swift for the Swift parser starting from " ++ start.text
      ++ ofString ". Set xcodeprojPath in your configuration if the package lives elsewhere."
  | .noWrapperAt directory => ofString "No Gradle wrapper found at " ++ directory.text
      ++ ofString ". Check gradleWrapperPath in your configuration."
  | .noWrapper start => ofString "Could not find a Gradle wrapper starting from " ++ start.text
      ++ ofString ". Set gradleWrapperPath in your configuration to the directory containing gradlew."
  | .noCommand => ofString "Descriptors must implement resolve_command()"
  | .unknownMode value => value.inner ++ ofString " is not a valid RequestMode"
  | .emptyCommand => ofString "Parser command is empty"
  | .unwritableRequest cause => ofString "Error serializing to JSON: " ++ ofText cause.message
  | .file e => ofText e.message
  | .notStarted _ message => message
  | .notDelivered _ => ofString "drain failed"
  | .cancelled => []
  | .exited code hint _ => exitMessage code hint
  | .emptyResult _ => ofString "Parser returned empty stdout while a JSON object was expected"
  | .undecodable fault stdout =>
    ofString "Failed to decode parser JSON output: " ++ ofText (fault.message stdout)
  | .notAnObject kind _ => ofString "Parser output must be a JSON object, got " ++ ofText kind
  | .numberTooLong limit digits => ofText (Json.Fault.Kind.tooLong limit digits).message
  | .tooDeep => ofText Json.Fault.Kind.tooDeep.message
  | .variable e => ofText e.message

end Failure
end ParserRelay
