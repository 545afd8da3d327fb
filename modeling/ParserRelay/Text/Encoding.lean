import ParserRelay.Text.Quoted
/-! The encoded forms of wide texts. In UTF-8 half a surrogate pair has none. For the system the halves
U+DC80 to U+DCFF stand for single bytes. -/
namespace ParserRelay

/-- Halves in direct succession that have no encoded form. -/
structure LoneRun where
  first : Surrogate
  start : Nat
  length : Nat
  deriving DecidableEq

def LoneRun.message (r : LoneRun) : Text :=
  "'utf-8' codec can't encode character".toList
    ++ (if r.length = 1 then
      " '".toList ++ Text.numericEscape (CodePoint.lone r.first).toNat ++ "' in position ".toList
        ++ Text.ofNat r.start
    else "s in position ".toList ++ Text.ofNat r.start ++ '-' :: Text.ofNat (r.start + r.length - 1))
    ++ ": surrogates not allowed".toList

namespace WideText

def loneCount : WideText → Nat
  | .lone _ :: r => loneCount r + 1
  | _ => 0

def plainFrom (n : Nat) : WideText → Except LoneRun Text
  | [] => .ok []
  | .char c :: r => (plainFrom (n + 1) r).map (c :: ·)
  | .lone s :: r => .error ⟨s, n, loneCount r + 1⟩

def plain (w : WideText) : Except LoneRun Text := plainFrom 0 w

/-- U+DC80 to U+DCFF. -/
def standsForByte (s : Surrogate) : Bool := 0x480 ≤ s.val && s.val < 0x500

def refusedFrom (n : Nat) : WideText → Option LoneRun
  | [] => none
  | .char _ :: r => refusedFrom (n + 1) r
  | .lone s :: r =>
    if standsForByte s then refusedFrom (n + 1) r else some ⟨s, n, loneCount r + 1⟩

def refused? (w : WideText) : Option LoneRun := refusedFrom 0 w

theorem toOption_plainFrom (n : Nat) (w : WideText) : (plainFrom n w).toOption = toText? w := by
  fun_induction plainFrom n w with
  | case1 => rfl
  | case2 n c r ih =>
    rw [toText?, ← ih]
    cases plainFrom (n + 1) r <;> rfl
  | case3 => rfl

theorem plain_ofText (t : Text) : plain (ofText t) = .ok t := by
  have h : (plain (ofText t)).toOption = some t := (toOption_plainFrom 0 _).trans (toText?_ofText t)
  match hp : plain (ofText t), h with
  | .ok u, h => simpa [Except.toOption] using h

theorem refused?_ofText (t : Text) : refused? (ofText t) = none := by
  suffices ∀ n, refusedFrom n (ofText t) = none from this 0
  induction t with
  | nil => exact fun _ => rfl
  | cons c t ih => exact fun n => ih (n + 1)

end WideText
end ParserRelay
