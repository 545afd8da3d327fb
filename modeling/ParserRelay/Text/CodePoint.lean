import ParserRelay.Text.Basic
/-! Wide texts, in which a half of a surrogate pair may stand alone. Whatever callers hand over is of this
kind: values, paths, commands and documents; what streams carry and what is written here is plain. -/
namespace ParserRelay

/-- A half of a surrogate pair: its offset from U+D800. The first 1024 are the leading halves. -/
abbrev Surrogate := Fin 2048

inductive CodePoint
  | char (c : Char)
  | lone (s : Surrogate)
  deriving DecidableEq

abbrev WideText := List CodePoint

namespace CodePoint

def ofNat (n : Nat) : CodePoint :=
  if h : 0xD800 ≤ n ∧ n < 0xE000 then .lone ⟨n - 0xD800, by omega⟩ else .char (Char.ofNat n)

def toNat : CodePoint → Nat
  | .char c => c.toNat
  | .lone s => 0xD800 + s.val

instance : Coded CodePoint := ⟨toNat⟩

def char? : CodePoint → Option Char
  | .char c => some c
  | .lone _ => none

def paired? (s u : Surrogate) : Option Char :=
  if s.val < 1024 ∧ 1024 ≤ u.val then some (Char.ofNat (0x10000 + 1024 * s.val + (u.val - 1024))) else none

end CodePoint

namespace WideText

def ofText (t : Text) : WideText := t.map .char

def ofString (s : String) : WideText := ofText s.toList

def toText? : WideText → Option Text
  | [] => some []
  | .char c :: r => (toText? r).map (c :: ·)
  | .lone _ :: _ => none

@[simp] theorem ofText_nil : ofText [] = [] := rfl

@[simp] theorem ofText_cons (c : Char) (t : Text) : ofText (c :: t) = .char c :: ofText t := rfl

@[simp] theorem ofText_append (t u : Text) : ofText (t ++ u) = ofText t ++ ofText u :=
  List.map_append

theorem toText?_ofText (t : Text) : toText? (ofText t) = some t := by
  induction t with
  | nil => rfl
  | cons c t ih => simpa [ofText, toText?] using ih

theorem eq_ofText_of_toText? {w : WideText} {t : Text} (h : toText? w = some t) : w = ofText t := by
  fun_induction toText? w generalizing t with
  | case1 => simp_all [ofText]
  | case2 c r ih =>
    obtain ⟨u, hu, rfl⟩ := Option.map_eq_some_iff.1 h
    simp [ofText, ih hu]
  | case3 => simp at h

end WideText
end ParserRelay
