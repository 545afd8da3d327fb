import ParserRelay.Proofs.Environment.StreamLimit
import ParserRelay.Proofs.Number.Numeral
/-!
# The limit written in a setting

A setting that denotes a positive integer gives it as the limit of the streams. Any other text gives
the default, and looking the limit up never fails.
-/
namespace ParserRelay.Environment
open WideText (ofText ofString)

variable {env : Environment} {setting : WideText} {n : ℤ}

/-- No half of a pair stands in the setting, and its text denotes the integer. -/
def Denotes (setting : WideText) (n : ℤ) : Prop :=
  ∃ t, setting = ofText t ∧ IntegerText.Denotes t n

theorem integer?_eq_some_iff : integer? setting = some n ↔ Denotes setting n := by
  constructor
  · intro h
    obtain ⟨t, ht, hn⟩ := Option.bind_eq_some_iff.mp h
    exact ⟨t, WideText.eq_ofText_of_toText? ht, IntegerText.parse?_eq_some_iff.mp hn⟩
  · intro h
    obtain ⟨t, rfl, hn⟩ := h
    rw [integer?, WideText.toText?_ofText]
    exact IntegerText.parse?_eq_some_iff.mpr hn

instance : Decidable (Denotes setting n) := decidable_of_iff _ integer?_eq_some_iff

theorem limitOf_of_positive (h : Denotes setting n) (hpos : 0 < n) : limitOf (some setting) = n := by
  rw [limitOf, Option.bind_some, integer?_eq_some_iff.mpr h]
  exact if_pos hpos

theorem limitOf_of_not_positive (h : ∀ n, Denotes setting n → ¬ 0 < n) :
    limitOf (some setting) = defaultLimit := by
  rw [limitOf, Option.bind_some]
  cases hn : integer? setting with
  | none => rfl
  | some n => exact if_neg (h n (integer?_eq_some_iff.mp hn))

theorem lookup_limitKey (env : Environment) : env.lookup limitKey = .ok (env.get? limitKey) := by
  have hencoded : encoded limitKey = .ok () := by
    rw [encoded, limitKey, ofString, WideText.refused?_ofText]
  rw [lookup, hencoded]
  cases env.forced <;> rfl

theorem getInt_limitKey (env : Environment) (default : ℤ) : env.getInt limitKey default =
    .ok (((env.get? limitKey).bind integer?).getD default) := by
  rw [getInt, lookup_limitKey]
  rfl

/-- The limit is the integer that the deciding setting denotes, if this is positive, and else the
default. -/
theorem positive_number_or_default (hs : limitSetting? env.mapping env.process = some setting) :
    (∀ n, Denotes setting n → 0 < n → env.streamLimit = n) ∧
    ((∀ n, Denotes setting n → ¬ 0 < n) → env.streamLimit = defaultLimit) ∧
    ∃ n, env.getInt limitKey defaultLimit = .ok n ∧
      env.streamLimit = if 0 < n then n else defaultLimit := by
  have hlimit : env.streamLimit = limitOf (some setting) := by
    rw [streamLimit_eq, hs]
  refine ⟨fun n hn hpos => ?_, fun hnot => ?_, ?_⟩
  · rw [hlimit, limitOf_of_positive hn hpos]
  · rw [hlimit, limitOf_of_not_positive hnot]
  · exact ⟨_, env.getInt_limitKey defaultLimit, rfl⟩

/-- A numeral with a sign, a zero before it, a gap, digits of two scripts and space around it. -/
def paddedNumeral : WideText := ofString " +0_4٢\n"

def doubledGap : WideText := ofString "4__2"

def forcedLimit : Environment := ⟨[(limitKey, ofString "7")],
  [(forceKey, some (ofString "true")), (limitKey, some paddedNumeral)]⟩

def freeLimit : Environment := ⟨[(limitKey, doubledGap)], [(limitKey, some (ofString "7"))]⟩

theorem padded_numeral_or_default :
    (limitSetting? forcedLimit.mapping forcedLimit.process = some paddedNumeral ∧
      Denotes paddedNumeral 42 ∧ forcedLimit.streamLimit = 42) ∧
    limitSetting? freeLimit.mapping freeLimit.process = some doubledGap ∧
      (∀ n, Denotes doubledGap n → ¬ 0 < n) ∧ freeLimit.streamLimit = defaultLimit := by
  have hforced : limitSetting? forcedLimit.mapping forcedLimit.process = some paddedNumeral := by
    decide +kernel
  have hfree : limitSetting? freeLimit.mapping freeLimit.process = some doubledGap := by
    decide +kernel
  have hpadded : Denotes paddedNumeral 42 := by decide +kernel
  have hnone : integer? doubledGap = none := by decide +kernel
  have hdoubled : ∀ n, Denotes doubledGap n → ¬ 0 < n := by
    intro n hn
    cases hnone.symm.trans (integer?_eq_some_iff.mpr hn)
  refine ⟨⟨hforced, hpadded, ?_⟩, hfree, hdoubled, ?_⟩
  · exact (positive_number_or_default hforced).1 42 hpadded (by decide)
  · exact (positive_number_or_default hfree).2.1 hdoubled

end ParserRelay.Environment
