import ParserRelay.Number.Binary64
import ParserRelay.Text.CodePoint
/-! JSON values: integers of any size apart from floating-point numbers, strings of wide text, and
objects as lists of members in order with distinct keys. -/
namespace ParserRelay

inductive Json
  | null
  | bool (b : Bool)
  | int (n : Int)
  | float (x : Binary64)
  | str (s : WideText)
  | arr (items : List Json)
  | obj (members : List (WideText × Json))

namespace Json

abbrev Members := List (WideText × Json)

namespace Members

def put (key : WideText) (value : Json) : Members → Members
  | [] => [(key, value)]
  | (k, v) :: r => if k = key then (k, value) :: r else (k, v) :: put key value r

/-- Members as written become members with distinct keys: a repeated key keeps its first place
and takes its last value. -/
def ofWritten (written : Members) : Members := written.foldl (fun m (k, v) => put k v m) []

def get? (key : WideText) : Members → Option Json
  | [] => none
  | (k, v) :: r => if k = key then some v else get? key r

def keys (members : Members) : List WideText := members.map (·.1)

theorem get?_put_self (key : WideText) (value : Json) (m : Members) :
    get? key (put key value m) = some value := by
  induction m with
  | nil => simp [put, get?]
  | cons e r ih => obtain ⟨k, v⟩ := e; by_cases h : k = key <;> simp [put, get?, h, ih]

theorem get?_put_of_ne {key other : WideText} (h : other ≠ key) (value : Json) (m : Members) :
    get? other (put key value m) = get? other m := by
  induction m with
  | nil => simp [put, get?, Ne.symm h]
  | cons e r ih =>
    obtain ⟨k, v⟩ := e
    by_cases hk : k = key
    · simp [put, get?, hk, Ne.symm h]
    · by_cases ho : k = other
      · subst ho; simp [put, get?, hk]
      · simp [put, get?, hk, ho, ih]

end Members

def kindName : Json → Text
  | null => "NoneType".toList
  | bool _ => "bool".toList
  | int _ => "int".toList
  | float _ => "float".toList
  | str _ => "str".toList
  | arr _ => "list".toList
  | obj _ => "dict".toList

def ofText (t : Text) : Json := .str (WideText.ofText t)

end Json
end ParserRelay
