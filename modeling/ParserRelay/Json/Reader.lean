import ParserRelay.Json.Basic
import ParserRelay.Text.Digit
/-! Reading JSON. One reader serves every dialect of the format: the dialects differ in the length
of numbers, in the depth of nesting, and in whether half a surrogate pair may stand in a string.
A document is wide text: what is not plain can stand in strings only.
A reader takes the rest of the document and returns a value with what follows it; a fault counts
the characters left where it was met. -/
namespace ParserRelay.Json

inductive LengthRule
  | integers (digits : Nat)
  /-- Numbers of any kind whose sign and whole part have more characters. -/
  | wholeParts (characters : Nat)

def LengthRule.limit : LengthRule → Nat
  | .integers limit => limit
  | .wholeParts limit => limit

/-- How many containers may stand in one another. Those that hold nothing need not count. -/
structure NestingRule where
  limit : Nat
  countsEmpty : Bool

/-- A number by itself is a limit for all containers. -/
instance (n : Nat) : OfNat NestingRule n := ⟨⟨n, true⟩⟩

/-- Whether an empty container may stand where there is room for so many more. -/
def NestingRule.admitsEmpty (rule : NestingRule) (room : Nat) : Bool := !rule.countsEmpty || 0 < room

structure Dialect where
  loneHalves : Bool
  nesting : NestingRule
  length : LengthRule

/-- Result documents: lenient in strings. Each container is a call of its own, so the room for them is
what the calls in use leave of the interpreter's stack. -/
def documents (room : Nat) : Dialect := ⟨true, ⟨room, true⟩, .integers 4300⟩

/-- Single-line records: strict in strings and depth. -/
def records : Dialect := ⟨false, ⟨200, false⟩, .wholeParts 4300⟩

inductive Fault.Kind
  | byteOrderMark
  | expectedValue
  | expectedKey
  | expectedColon
  | expectedComma
  | extraData
  | unterminated
  | controlCharacter
  | invalidEscape
  | invalidUnicodeEscape
  | loneHalf
  | tooLong (limit digits : Nat)
  | tooDeep
  deriving DecidableEq

/-- What is wrong, and how many characters of the document are left from there on. -/
structure Fault where
  kind : Fault.Kind
  left : Nat
  deriving DecidableEq

abbrev Reading (α : Type) := Except Fault (α × WideText)

def Reading.map {α β : Type} (f : α → β) : Reading α → Reading β
  | .ok (a, t) => .ok (f a, t)
  | .error e => .error e

def isSpace (c : CodePoint) : Bool := c = .char ' ' || c = .char '\t' || c = .char '\n' || c = .char '\r'

def skip (t : WideText) : WideText := t.dropWhile isSpace

section Strings

/-- What a string is written with. Halves that are written out do not pair up; those that numeric
escapes stand for do. -/
inductive StringUnit
  | written (c : CodePoint)
  | escapedHalf (s : Surrogate)

def StringUnit.ofEscape (n : Nat) : StringUnit := match CodePoint.ofNat n with
  | .lone s => .escapedHalf s
  | c => .written c

def joinUnits : List StringUnit → WideText
  | [] => []
  | .written c :: r => c :: joinUnits r
  | .escapedHalf s :: r => match r with
    | .escapedHalf u :: r' => match CodePoint.paired? s u with
      | some c => .char c :: joinUnits r'
      | none => .lone s :: joinUnits (.escapedHalf u :: r')
    | r => .lone s :: joinUnits r
  termination_by structural t => t

def escaped? : CodePoint → Option Char
  | .char '"' => some '"'
  | .char '\\' => some '\\'
  | .char '/' => some '/'
  | .char 'b' => some '\x08'
  | .char 'f' => some '\x0c'
  | .char 'n' => some '\n'
  | .char 'r' => some '\r'
  | .char 't' => some '\t'
  | _ => none

def hexDigit? (c : CodePoint) : Option Nat := c.char?.bind Text.hexValue?

def hexQuad? (a b c d : CodePoint) : Option Nat := do
  let a ← hexDigit? a
  let b ← hexDigit? b
  let c ← hexDigit? c
  let d ← hexDigit? d
  some (((16 * a + b) * 16 + c) * 16 + d)

/-- The units up to the closing mark. `opened` counts what is left from the opening mark on. An
escape of four digits needs a character after it. -/
def units (opened : Nat) : WideText → Reading (List StringUnit)
  | [] => .error ⟨.unterminated, opened⟩
  | c :: t =>
    if c = .char '"' then .ok ([], t)
    else if c = .char '\\' then
      match t with
      | [] => .error ⟨.unterminated, opened⟩
      | .char 'u' :: u => match u with
        | a :: b :: x :: y :: z :: r => match hexQuad? a b x y with
          | some n => (units opened (z :: r)).map (.ofEscape n :: ·)
          | none => .error ⟨.invalidUnicodeEscape, u.length + 1⟩
        | _ => .error ⟨.invalidUnicodeEscape, u.length + 1⟩
      | e :: r => match escaped? e with
        | some s => (units opened r).map (.written (.char s) :: ·)
        | none => .error ⟨.invalidEscape, t.length + 1⟩
    else if c.toNat < 0x20 then .error ⟨.controlCharacter, t.length + 1⟩
    else (units opened t).map (.written c :: ·)
  termination_by structural t => t

def string (d : Dialect) (t : WideText) : Reading WideText :=
  match units (t.length + 1) t with
  | .error e => .error e
  | .ok (us, r) =>
    let w := joinUnits us
    if d.loneHalves || (WideText.toText? w).isSome then .ok (w, r)
    else .error ⟨.loneHalf, r.length⟩

end Strings

section Numbers

/-- The parts of a number as written; `fraction` is empty where there is no point and `exponent`
absent where there is no exponent. -/
structure NumberText where
  negative : Bool
  whole : Text
  fraction : Text
  exponent : Option (Bool × Text)
  deriving DecidableEq

def digits : WideText → Text × WideText
  | [] => ([], [])
  | .lone s :: t => ([], .lone s :: t)
  | .char c :: t =>
    if c.isDigit then match digits t with
      | (ds, r) => (c :: ds, r)
    else ([], .char c :: t)

def whole? (t : WideText) : Option (Text × WideText) := match t with
  | .char '0' :: r => some (['0'], r)
  | t => match digits t with
    | ([], _) => none
    | w => some w

def fraction : WideText → Text × WideText
  | .char '.' :: t => match digits t with
    | ([], _) => ([], .char '.' :: t)
    | r => r
  | t => ([], t)

def signedDigits? : WideText → Option ((Bool × Text) × WideText)
  | .char '+' :: t => let (ds, r) := digits t; if ds.isEmpty then none else some ((false, ds), r)
  | .char '-' :: t => let (ds, r) := digits t; if ds.isEmpty then none else some ((true, ds), r)
  | t => let (ds, r) := digits t; if ds.isEmpty then none else some ((false, ds), r)

def exponent : WideText → Option (Bool × Text) × WideText
  | [] => (none, [])
  | c :: t =>
    if c = .char 'e' ∨ c = .char 'E' then match signedDigits? t with
      | some (e, r) => (some e, r)
      | none => (none, c :: t)
    else (none, c :: t)

def number? (t : WideText) : Option (NumberText × WideText) :=
  let (negative, t) := match t with
    | .char '-' :: t => (true, t)
    | t => (false, t)
  match whole? t with
  | none => none
  | some (w, t) =>
    let (f, t) := fraction t
    let (e, t) := exponent t
    some (⟨negative, w, f, e⟩, t)

namespace NumberText

def isInteger (n : NumberText) : Bool := n.fraction.isEmpty && n.exponent.isNone

def power (n : NumberText) : Int :=
  (match n.exponent with
    | none => 0
    | some (negative, ds) => if negative then -(Text.decimalValue ds : Int) else Text.decimalValue ds)
  - n.fraction.length

def toBinary64 (n : NumberText) : Binary64 :=
  Binary64.ofDecimal n.negative (Text.decimalValue (n.whole ++ n.fraction)) n.power

def toInt (n : NumberText) : Int :=
  if n.negative then -(Text.decimalValue n.whole : Int) else Text.decimalValue n.whole

def toJson (n : NumberText) : Json := if n.isInteger then .int n.toInt else .float n.toBinary64

def exceeds (n : NumberText) : LengthRule → Bool
  | .integers limit => n.isInteger && limit < n.whole.length
  | .wholeParts limit => limit < n.whole.length + n.negative.toNat

end NumberText

end Numbers

def namedValues : List (Text × Json) :=
  [("null".toList, .null), ("true".toList, .bool true), ("false".toList, .bool false),
    ("NaN".toList, .float .nan), ("Infinity".toList, .float (.infinite false)),
    ("-Infinity".toList, .float (.infinite true))]

def named? (t : WideText) : Option (Json × WideText) :=
  namedValues.findSome? fun (name, v) => (Text.after? (WideText.ofText name) t).map (v, ·)

def scalar (d : Dialect) (t : WideText) : Reading Json :=
  match named? t with
  | some r => .ok r
  | none => match number? t with
    | none => .error ⟨.expectedValue, t.length⟩
    | some (n, r) => if n.exceeds d.length then 
      .error ⟨.tooLong d.length.limit n.whole.length, r.length⟩
    else .ok (n.toJson, r)

mutual

def value (d : Dialect) (room : Nat) : Nat → WideText → Reading Json
  | 0, t => .error ⟨.tooDeep, t.length⟩
  | fuel + 1, t => match t with
    | .char '"' :: r => (string d r).map .str
    | .char '[' :: r => match skip r with
      | .char ']' :: r =>
        if d.nesting.admitsEmpty room then .ok (.arr [], r) else .error ⟨.tooDeep, r.length⟩
      | r => match room with
        | 0 => .error ⟨.tooDeep, r.length⟩
        | room + 1 => (items d room fuel r).map .arr
    | .char '{' :: r => match skip r with
      | .char '}' :: r =>
        if d.nesting.admitsEmpty room then .ok (.obj [], r) else .error ⟨.tooDeep, r.length⟩
      | r => match room with
        | 0 => .error ⟨.tooDeep, r.length⟩
        | room + 1 => (members d room fuel r).map fun m => .obj (Members.ofWritten m)
    | t => scalar d t

def items (d : Dialect) (room : Nat) : Nat → WideText → Reading (List Json)
  | 0, t => .error ⟨.tooDeep, t.length⟩
  | fuel + 1, t => match value d room fuel t with
    | .error e => .error e
    | .ok (v, r) => match skip r with
      | .char ']' :: r => .ok ([v], r)
      | .char ',' :: r => (items d room fuel (skip r)).map (v :: ·)
      | r => .error ⟨.expectedComma, r.length⟩

def members (d : Dialect) (room : Nat) : Nat → WideText → Reading Members
  | 0, t => .error ⟨.tooDeep, t.length⟩
  | fuel + 1, t => match t with
    | .char '"' :: r => match string d r with
      | .error e => .error e
      | .ok (k, r) => match skip r with
        | .char ':' :: r => match value d room fuel (skip r) with
          | .error e => .error e
          | .ok (v, r) => match skip r with
            | .char '}' :: r => .ok ([(k, v)], r)
            | .char ',' :: r => (members d room fuel (skip r)).map ((k, v) :: ·)
            | r => .error ⟨.expectedComma, r.length⟩
        | r => .error ⟨.expectedColon, r.length⟩
    | t => .error ⟨.expectedKey, t.length⟩

end

/-- A value needs at most two steps for each character of its text. -/
def fuelFor (t : WideText) : Nat := 2 * t.length + 2

def read (d : Dialect) (t : WideText) : Except Fault Json :=
  if t.head? = some (.char (Char.ofNat 0xFEFF)) then .error ⟨.byteOrderMark, t.length⟩
  else match value d d.nesting.limit (fuelFor t) (skip t) with
    | .error e => .error e
    | .ok (v, r) => match skip r with
      | [] => .ok v
      | r => .error ⟨.extraData, r.length⟩

namespace Fault

def Kind.message : Kind → Text
  | .byteOrderMark => "Unexpected UTF-8 BOM (decode using utf-8-sig)".toList
  | .expectedValue => "Expecting value".toList
  | .expectedKey => "Expecting property name enclosed in double quotes".toList
  | .expectedColon => "Expecting ':' delimiter".toList
  | .expectedComma => "Expecting ',' delimiter".toList
  | .extraData => "Extra data".toList
  | .unterminated => "Unterminated string starting at".toList
  | .controlCharacter => "Invalid control character at".toList
  | .invalidEscape => "Invalid \\escape".toList
  | .invalidUnicodeEscape => "Invalid \\uXXXX escape".toList
  | .loneHalf => "Lone surrogate".toList
  | .tooLong limit n => "Exceeds the limit (".toList ++ Text.ofNat limit
      ++ " digits) for integer string conversion: value has ".toList ++ Text.ofNat n
      ++ " digits; use sys.set_int_max_str_digits() to increase the limit".toList
  | .tooDeep => "Nesting is too deep".toList

def message (document : WideText) (f : Fault) : Text :=
  let before := document.take (document.length - f.left)
  let column := (before.reverse.takeWhile (· ≠ .char '\n')).length + 1
  f.kind.message ++ ": line ".toList ++ Text.ofNat (before.count (.char '\n') + 1) ++ " column ".toList
    ++ Text.ofNat column ++ " (char ".toList ++ Text.ofNat before.length ++ ")".toList

end Fault

end ParserRelay.Json
