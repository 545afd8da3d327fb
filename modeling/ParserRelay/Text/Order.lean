import ParserRelay.Text.Basic
/-! The order of texts by code points, and lists sorted by it. -/
namespace ParserRelay.Text

def precedes : List Nat → List Nat → Bool
  | [], _ => true
  | _ :: _, [] => false
  | a :: s, b :: t => a < b || (a = b && precedes s t)

def insertBy {α : Type} (key : α → List Nat) (a : α) : List α → List α
  | [] => [a]
  | b :: r => if precedes (key a) (key b) then a :: b :: r else b :: insertBy key a r

/-- The entries in ascending order of their keys, equal ones in their order. -/
def sortBy {α : Type} (key : α → List Nat) (entries : List α) : List α :=
  entries.foldr (insertBy key) []

def codes {α : Type} [Coded α] (t : List α) : List Nat := t.map Coded.code

theorem insertBy_perm {α : Type} (key : α → List Nat) (a : α) (l : List α) :
    (insertBy key a l).Perm (a :: l) := by
  induction l with
  | nil => simp [insertBy]
  | cons b r ih =>
    by_cases h : precedes (key a) (key b)
    · simp [insertBy, h]
    · simpa [insertBy, h] using (ih.cons b).trans (.swap a b r)

theorem sortBy_perm {α : Type} (key : α → List Nat) (l : List α) : (sortBy key l).Perm l := by
  induction l with
  | nil => exact .nil
  | cons a r ih => exact (insertBy_perm key a _).trans (ih.cons a)

end ParserRelay.Text
