import ParserRelay.Text.Basic
/-! Reading a byte stream line by line through a buffer with a limit. The whole stream is at hand and
ends after its last byte. A line that is longer than the limit is collected piece by piece. -/
namespace ParserRelay.LineReader

def newline : UInt8 := 10

inductive Attempt
  | line (bytes rest : Bytes)
  /-- The line end is not within the limit: so many bytes can be taken without passing it. -/
  | overrun (bytes : Nat)
  | ended (rest : Bytes)

/-- Looks for a line end. One right behind `limit` bytes is still within the limit. -/
def readLine (limit : Nat) (buffer : Bytes) : Attempt :=
  let before := buffer.takeWhile (· ≠ newline)
  match buffer.dropWhile (· ≠ newline) with
  | [] => if limit < buffer.length then .overrun buffer.length else .ended buffer
  | e :: rest => if limit < before.length then .overrun before.length else .line (before ++ [e]) rest

def linesFrom (limit : Nat) : Nat → Bytes → Bytes → List Bytes
  | 0, _, _ => []
  | fuel + 1, pending, buffer => match readLine limit buffer with
    | .line l rest => (pending ++ l) :: linesFrom limit fuel [] rest
    | .overrun n => linesFrom limit fuel (pending ++ buffer.take n) (buffer.drop n)
    | .ended rest => if pending.isEmpty && rest.isEmpty then [] else [pending ++ rest]

/-- The lines of a stream, each whole; every attempt but the last takes at least one byte. -/
def lines (limit : Nat) (stream : Bytes) : List Bytes := linesFrom limit (stream.length + 1) [] stream

end ParserRelay.LineReader
