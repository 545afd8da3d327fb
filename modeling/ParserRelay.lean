import ParserRelay.FileSystem.View
import ParserRelay.Session
import ParserRelay.Proofs.Json.StringForm
import ParserRelay.Proofs.Json.Acceptance
import ParserRelay.Proofs.Json.Printing
import ParserRelay.Proofs.Message.Sorting
import ParserRelay.Proofs.Stream.Lines
import ParserRelay.Proofs.Message.Record
import ParserRelay.Proofs.Message.Protocol
import ParserRelay.Proofs.Request.RoundTrip
import ParserRelay.Proofs.FileSystem.Frame
import ParserRelay.Proofs.FileSystem.Walk
import ParserRelay.Proofs.FileSystem.Growth
import ParserRelay.Proofs.FileSystem.Contents
import ParserRelay.Proofs.Run.RequestFile
import ParserRelay.Proofs.Run.Asked
import ParserRelay.Proofs.Run.ProcessLife
import ParserRelay.Proofs.Run.Delivery
import ParserRelay.Proofs.Call.ComposeRequest
import ParserRelay.Proofs.Json.Derivation
import ParserRelay.Proofs.Json.Place
import ParserRelay.Proofs.Json.Longest
import ParserRelay.Proofs.Json.Bounds
import ParserRelay.Proofs.Result.Reading
import ParserRelay.Proofs.Message.Acceptance
import ParserRelay.Proofs.Run.Exit
import ParserRelay.Proofs.Call.Answer
import ParserRelay.Proofs.Message.Agreement
import ParserRelay.Proofs.Stream.Insertion
import ParserRelay.Proofs.Run.ErrorStream
import ParserRelay.Proofs.Call.EarlyFailure
import ParserRelay.Proofs.Call.Separation
import ParserRelay.Proofs.Environment.StreamLimit
import ParserRelay.Proofs.Session.Limits
import ParserRelay.Proofs.Hint.Language
import ParserRelay.Proofs.Hint.Lines
import ParserRelay.Proofs.Hint.Recasing
import ParserRelay.Proofs.Toolchain.Wrapper
import ParserRelay.Proofs.Call.Arguments
import ParserRelay.Proofs.FileSystem.Descent
import ParserRelay.Proofs.Path.Faults
import ParserRelay.Proofs.FileSystem.Canonical
import ParserRelay.Proofs.Toolchain.Nearest
import ParserRelay.Proofs.Toolchain.FixedPoint
import ParserRelay.Proofs.FileSystem.Resolution
import ParserRelay.Proofs.Toolchain.Override
import ParserRelay.Proofs.FileSystem.Refusal
import ParserRelay.Proofs.Stream.Decoding
import ParserRelay.Proofs.Run.Cause
import ParserRelay.Proofs.Registry.Lookup
import ParserRelay.Proofs.Config.Entries
import ParserRelay.Proofs.Config.Renaming
import ParserRelay.Proofs.Validation.Acceptance
import ParserRelay.Proofs.Number.Numeral
import ParserRelay.Proofs.Environment.LimitText
