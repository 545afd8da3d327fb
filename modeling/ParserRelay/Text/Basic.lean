/-! Texts and byte strings as lists, and the plain cuts and joins made on them.
Lists keep every later definition open to structural recursion and to closed evaluation. -/
namespace ParserRelay

abbrev Text := List Char

abbrev Bytes := List UInt8

class Coded (α : Type) where
  code : α → Nat

instance : Coded Char := ⟨Char.toNat⟩

namespace Text

def after? {α : Type} [DecidableEq α] : List α → List α → Option (List α)
  | [], t => some t
  | _ :: _, [] => none
  | c :: s, d :: t => if c = d then after? s t else none

def joinWith {α : Type} (separator : List α) : List (List α) → List α
  | [] => []
  | [t] => t
  | t :: u :: r => t ++ separator ++ joinWith separator (u :: r)

/-- The pieces between the places where the separator stands; never the empty list. -/
def splitOn {α : Type} [DecidableEq α] (separator : α) : List α → List (List α)
  | [] => [[]]
  | c :: t => match splitOn separator t with
    | [] => [[c]]
    | p :: r => if c = separator then [] :: p :: r else (c :: p) :: r

def asciiLower (t : Text) : Text := t.map Char.toLower

theorem after?_append {α : Type} [DecidableEq α] (s t : List α) : after? s (s ++ t) = some t := by
  induction s with
  | nil => rfl
  | cons c s ih => simp [after?, ih]

theorem eq_append_of_after? {α : Type} [DecidableEq α] {s t r : List α} (h : after? s t = some r) : t = s ++ r := by
  fun_induction after? s t with
  | case1 t => simpa using h
  | case2 => simp at h
  | case3 s d t ih => simp [ih h]
  | case4 => simp at h

end Text
end ParserRelay
