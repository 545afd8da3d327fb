import ParserRelay.Json.Basic
/-! Problems of values that come from outside, each with the field in which it was found. -/
namespace ParserRelay

inductive RecordKind
  | config
  | request
  | message

def RecordKind.name : RecordKind → Text
  | .config => "ParserConfig".toList
  | .request => "RequestPayload".toList
  | .message => "ParserMessage".toList

inductive Problem
  | missing
  | unknownMode
  | unknownLevel
  | notString
  | notUnicode
  | notObject (wanted : RecordKind)
  | frozen

namespace Problem

def code : Problem → Text
  | .missing => "missing".toList
  | .unknownMode => "enum".toList
  | .unknownLevel => "literal_error".toList
  | .notString => "string_type".toList
  | .notUnicode => "string_unicode".toList
  | .notObject _ => "model_type".toList
  | .frozen => "frozen_instance".toList

def message : Problem → Text
  | .missing => "Field required".toList
  | .unknownMode => "Input should be 'CREATE' or 'PARSE'".toList
  | .unknownLevel => "Input should be 'DEBUG', 'INFO', 'WARN' or 'ERROR'".toList
  | .notString => "Input should be a valid string".toList
  | .notUnicode =>
    "Input should be a valid string, unable to parse raw data as a unicode string".toList
  | .notObject wanted =>
    "Input should be a valid dictionary or instance of ".toList ++ wanted.name
  | .frozen => "Instance is frozen".toList

end Problem

structure Issue where
  field : Option WideText
  problem : Problem

abbrev Checked (α : Type) := Except (List Issue) α

namespace Checked

def fault {α : Type} (field : Text) (problem : Problem) : Checked α :=
  .error [⟨some (WideText.ofText field), problem⟩]

/-- Both checks are made; the issues of the first come first. -/
def both {α β γ : Type} (f : α → β → γ) : Checked α → Checked β → Checked γ
  | .ok a, .ok b => .ok (f a b)
  | .ok _, .error e => .error e
  | .error e, .ok _ => .error e
  | .error e, .error e' => .error (e ++ e')

def string (field : Text) : Json → Checked WideText
  | .str s => .ok s
  | _ => fault field .notString

def choice {α : Type} (field : Text) (ofName? : Text → Option α) (unknown : Problem) : Json → Checked α
  | .str s => match WideText.toText? s with
    | some t => match ofName? t with
      | some a => .ok a
      | none => fault field unknown
    | none => fault field .notUnicode
  | _ => fault field unknown

def required {α : Type} (field : Text) (check : Json → Checked α) : Option Json → Checked α
  | some v => check v
  | none => fault field .missing

/-- The check of an object that may have any members. A key with half a surrogate pair is a problem of the
whole object, and then the only one. -/
def withPlainKeys {α : Type} (members : Json.Members) (check : Checked α) : Checked α :=
  if members.all fun (key, _) => (WideText.toText? key).isSome then check
  else .error [⟨none, .notUnicode⟩]

end Checked
end ParserRelay
