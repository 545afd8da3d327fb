import ParserRelay.Text.Blank
/-! The syntax of settings files: one binding a line, a value plain or in quotation marks. A line with a
mistake is passed over from where the mistake was met. -/
namespace ParserRelay.SettingsFile
open ParserRelay.Text

structure Binding where
  key : Text
  value : Option Text
  deriving DecidableEq

/-- A part of a binding with what follows it, or what is left where the mistake was met. -/
abbrev Part (α : Type) := Except Text (α × Text)

def unifyLineEnds : Text → Text
  | [] => []
  | '\r' :: t => match t with
    | '\n' :: r => '\n' :: unifyLineEnds r
    | t => '\n' :: unifyLineEnds t
  | c :: t => c :: unifyLineEnds t

def isGap (c : Char) : Bool := isBlank c && c ≠ '\n'

def skipGap (t : Text) : Text := t.dropWhile isGap

def skipExport (t : Text) : Text := match after? "export".toList t with
  | some r => if (r.takeWhile isGap).isEmpty then t else skipGap r
  | none => t

def isKeyChar (c : Char) : Bool := c ≠ '=' && c ≠ '#' && !isBlank c

def key : Text → Part (Option Text)
  | '#' :: r => .ok (none, '#' :: r)
  | '\'' :: r => match r.takeWhile (· ≠ '\''), r.dropWhile (· ≠ '\'') with
    | c :: k, _ :: rest => .ok (some (c :: k), rest)
    | _, _ => .error ('\'' :: r)
  | t => match t.takeWhile isKeyChar with
    | [] => .error t
    | k => .ok (some k, t.dropWhile isKeyChar)

/-- The text up to the closing mark. A mark behind a backslash closes only if no other one does. -/
def enclosed? (mark : Char) : Text → Option (Text × Text)
  | [] => none
  | c :: t =>
    if c = mark then some ([], t)
    else match t with
      | [] => none
      | d :: r =>
        if c = '\\' ∧ d = mark then match enclosed? mark r with
          | some (b, rest) => some (c :: d :: b, rest)
          | none => some ([c], r)
        else (enclosed? mark (d :: r)).map fun (b, rest) => (c :: b, rest)
  termination_by structural t => t

def plainEscape? : Char → Option Char
  | '\\' => some '\\'
  | '\'' => some '\''
  | _ => none

def fullEscape? : Char → Option Char
  | '\\' => some '\\'
  | '\'' => some '\''
  | '"' => some '"'
  | 'a' => some '\x07'
  | 'b' => some '\x08'
  | 'f' => some '\x0c'
  | 'n' => some '\n'
  | 'r' => some '\r'
  | 't' => some '\t'
  | 'v' => some '\x0b'
  | _ => none

def unescape (escape? : Char → Option Char) : Text → Text
  | [] => []
  | c :: t =>
    if c = '\\' then match t with
      | [] => [c]
      | d :: r => match escape? d with
        | some e => e :: unescape escape? r
        | none => c :: unescape escape? (d :: r)
    else c :: unescape escape? t
  termination_by structural t => t

def beforeComment (blankBefore : Bool) : Text → Text
  | [] => []
  | c :: t => if c = '#' ∧ blankBefore then [] else c :: beforeComment (isBlank c) t

def value : Text → Part Text
  | [] => .ok ([], [])
  | c :: t =>
    if c = '\'' then match enclosed? '\'' t with
      | some (b, r) => .ok (unescape plainEscape? b, r)
      | none => .error (c :: t)
    else if c = '"' then match enclosed? '"' t with
      | some (b, r) => .ok (unescape fullEscape? b, r)
      | none => .error (c :: t)
    else
      let line := (c :: t).takeWhile (· ≠ '\n')
      .ok (trimEnd (beforeComment false line), (c :: t).dropWhile (· ≠ '\n'))

def skipComment (t : Text) : Text := match skipGap t with
  | '#' :: r => r.dropWhile (· ≠ '\n')
  | _ => t

def lineEnd (t : Text) : Except Text Text := match skipGap t with
  | [] => .ok []
  | '\n' :: r => .ok r
  | _ => .error t

def optionalValue (t : Text) : Part (Option Text) := match t with
  | '=' :: r => match value (skipGap r) with
    | .ok (v, r) => .ok (some v, r)
    | .error e => .error e
  | t => .ok (none, t)

def binding (t : Text) : Part (Option Binding) :=
  match key (skipExport t) with
  | .error e => .error e
  | .ok (k, r) => match optionalValue (skipGap r) with
    | .error e => .error e
    | .ok (v, r) => match lineEnd (skipComment r) with
      | .error e => .error e
      | .ok r => .ok (k.map (⟨·, v⟩), r)

def nextLine (t : Text) : Text := (t.dropWhile (· ≠ '\n')).drop 1

/-- The bindings of a text; each step takes at least one character, which bounds the fuel. -/
def bindingsFrom : Nat → Text → List Binding
  | 0, _ => []
  | fuel + 1, t => match trimStart t with
    | [] => []
    | t => match binding t with
      | .ok (some b, r) => b :: bindingsFrom fuel r
      | .ok (none, r) => bindingsFrom fuel r
      | .error r => bindingsFrom fuel (nextLine r)

def bindings (file : Text) : List Binding :=
  let t := unifyLineEnds file
  bindingsFrom (t.length + 1) t

end ParserRelay.SettingsFile
