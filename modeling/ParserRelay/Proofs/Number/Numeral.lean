import Mathlib.Data.List.Pairwise
import Mathlib.Data.Nat.Digits.Defs
import ParserRelay.Number.IntegerText
import ParserRelay.Proofs.Text.Trim
/-!
# Numerals

Which text stands for which integer, apart from the reader: a sign or none, then digits of any
script, of which neighbours may have one underscore between them. The reader finds the integer of a
numeral with white space around it, and no integer in any other text.
-/
namespace ParserRelay

namespace Text

variable {α : Type} [Coded α] {c : α} {d z w n : ℕ}

def StandsFor (c : α) (d : ℕ) : Prop := d < 10 ∧ ∃ z ∈ zeroDigits, Coded.code c = z + d

theorem zeroDigits_apart : zeroDigits.Pairwise (· + 10 ≤ ·) := by decide +kernel

theorem eq_of_zeroDigits (hz : z ∈ zeroDigits) (hw : w ∈ zeroDigits) (hzn : z ≤ n ∧ n ≤ z + 9)
    (hwn : w ≤ n ∧ n ≤ w + 9) : z = w := by
  by_contra hne
  have hsymm : Std.Symm fun z w : ℕ => z + 10 ≤ w ∨ w + 10 ≤ z := ⟨fun _ _ => Or.symm⟩
  have hapart : zeroDigits.Pairwise fun z w => z + 10 ≤ w ∨ w + 10 ≤ z :=
    zeroDigits_apart.imp Or.inl
  have hzw := hapart.forall hz hw hne
  omega

theorem digitValue?_eq_some_iff : digitValue? c = some d ↔ StandsFor c d := by
  constructor
  · intro h
    obtain ⟨z, hz, rfl⟩ := Option.map_eq_some_iff.mp h
    have hrange := List.find?_some hz
    simp only [Bool.and_eq_true, decide_eq_true_eq] at hrange
    exact ⟨by omega, z, List.mem_of_find?_eq_some hz, by omega⟩
  · intro h
    obtain ⟨hd, z, hz, hc⟩ := h
    have hsome : (zeroDigits.find? fun z => z ≤ Coded.code c && Coded.code c ≤ z + 9).isSome := by
      apply List.find?_isSome.mpr
      exact ⟨z, hz, by simp only [Bool.and_eq_true, decide_eq_true_eq]; omega⟩
    obtain ⟨w, hw⟩ := Option.isSome_iff_exists.mp hsome
    have hrange := List.find?_some hw
    simp only [Bool.and_eq_true, decide_eq_true_eq] at hrange
    obtain rfl := eq_of_zeroDigits (List.mem_of_find?_eq_some hw) hz hrange (by omega)
    rw [digitValue?, hw, Option.map_some, hc, Nat.add_sub_cancel_left]

theorem no_blank_digits : ∀ z ∈ zeroDigits, ∀ d < 10, blankRanges.mem (z + d) = false := by
  decide +kernel

theorem StandsFor.not_blank (h : StandsFor c d) : isBlank c = false := by
  obtain ⟨hd, z, hz, hc⟩ := h
  rw [isBlank, hc]
  exact no_blank_digits z hz d hd

theorem StandsFor.not_sign {c : Char} (h : StandsFor c d) : c ≠ '+' ∧ c ≠ '-' := by
  have hplus : digitValue? '+' = none := by decide
  have hminus : digitValue? '-' = none := by decide
  have hc := digitValue?_eq_some_iff.mpr h
  constructor
  · intro he
    cases hplus.symm.trans (he ▸ hc)
  · intro he
    cases hminus.symm.trans (he ▸ hc)

end Text

namespace IntegerText
open Text (StandsFor isBlank trim)

variable {t : Text} {ds : List ℕ} {c : Char} {d m : ℕ} {n : ℤ} {after : Bool}

inductive Digits : Text → List ℕ → Prop
  | last {c : Char} {d : ℕ} : StandsFor c d → Digits [c] [d]
  | next {c : Char} {d : ℕ} {t : Text} {ds : List ℕ} :
      StandsFor c d → Digits t ds → Digits (c :: t) (d :: ds)
  | gap {c : Char} {d : ℕ} {t : Text} {ds : List ℕ} :
      StandsFor c d → Digits t ds → Digits (c :: '_' :: t) (d :: ds)

/-- What may be left of digits, after one of them or before the first. -/
inductive Rest : Bool → Text → List ℕ → Prop
  | nil : Rest true [] []
  | digits {after : Bool} {t : Text} {ds : List ℕ} : Digits t ds → Rest after t ds
  | gap {t : Text} {ds : List ℕ} : Digits t ds → Rest true ('_' :: t) ds

theorem Digits.cons (hc : StandsFor c d) (h : Rest true t ds) : Digits (c :: t) (d :: ds) := by
  cases h with
  | nil => exact .last hc
  | digits h => exact .next hc h
  | gap h => exact .gap hc h

theorem rest_of_digits? (h : digits? after t = some ds) : Rest after t ds := by
  -- The reader keeps only whether a digit stands before; `Rest` is the invariant for both states.
  fun_induction digits? after t generalizing ds with
  | case1 =>
    cases h
    exact .nil
  | case2 => cases h
  | case3 after c t d hd ih =>
    obtain ⟨es, hes, rfl⟩ := Option.map_eq_some_iff.mp h
    exact .digits (.cons (Text.digitValue?_eq_some_iff.mp hd) (ih hes))
  | case4 after c t hd hgap ih =>
    obtain ⟨rfl, rfl⟩ : c = '_' ∧ after = true := by simpa using hgap
    cases ih h with
    | digits h => exact .gap h
  | case5 => cases h

theorem digits?_cons (hc : StandsFor c d) (after : Bool) (t : Text) :
    digits? after (c :: t) = (digits? true t).map (d :: ·) := by
  rw [digits?, Text.digitValue?_eq_some_iff.mpr hc]

theorem digits?_gap (t : Text) : digits? true ('_' :: t) = digits? false t := by
  have hgap : Text.digitValue? '_' = none := by decide
  rw [digits?, hgap]
  rfl

theorem digits?_of_digits (h : Digits t ds) (after : Bool) : digits? after t = some ds := by
  induction h generalizing after with
  | last hc => rw [digits?_cons hc, digits?, if_pos rfl, Option.map_some]
  | next hc h ih => rw [digits?_cons hc, ih, Option.map_some]
  | gap hc h ih => rw [digits?_cons hc, digits?_gap, ih, Option.map_some]

theorem digits?_eq_some_iff : digits? false t = some ds ↔ Digits t ds := by
  constructor
  · intro h
    cases rest_of_digits? h with
    | digits h => exact h
  · exact fun h => digits?_of_digits h false

theorem value_eq_ofDigits (ds : List ℕ) : value ds = Nat.ofDigits 10 ds.reverse := by
  rw [Nat.ofDigits_eq_foldr, List.foldr_reverse, value]
  simp only [Nat.cast_id, Nat.add_comm]

theorem natural?_eq_some_iff : natural? t = some m ↔
    ∃ ds, Digits t ds ∧ ds.length ≤ 4300 ∧ m = Nat.ofDigits 10 ds.reverse := by
  rw [natural?, Option.bind_eq_some_iff]
  simp only [digits?_eq_some_iff, Option.ite_none_right_eq_some, Option.some.injEq,
    value_eq_ofDigits, maxDigits, @eq_comm ℕ m]

inductive Sign : Text → ℤ → Prop
  | none : Sign [] 1
  | plus : Sign ['+'] 1
  | minus : Sign ['-'] (-1)

/-- A sign or none, and digits: however many underscores, at most 4300 digits. -/
inductive Numeral : Text → ℤ → Prop
  | mk {sign t : Text} {unit : ℤ} {ds : List ℕ} : Sign sign unit → Digits t ds →
      ds.length ≤ 4300 → Numeral (sign ++ t) (unit * (Nat.ofDigits 10 ds.reverse : ℕ))

theorem Digits.exists_head (h : Digits t ds) : ∃ c d u, t = c :: u ∧ StandsFor c d := by
  cases h with
  | last hc => exact ⟨_, _, _, rfl, hc⟩
  | next hc => exact ⟨_, _, _, rfl, hc⟩
  | gap hc => exact ⟨_, _, _, rfl, hc⟩

theorem integer?_of_digits (h : Digits t ds) : integer? t = (natural? t).map Int.ofNat := by
  obtain ⟨c, d, u, rfl, hc⟩ := h.exists_head
  obtain ⟨hplus, hminus⟩ := hc.not_sign
  rw [integer?]
  · exact fun t ht => hplus (List.cons.inj ht).1
  · exact fun t ht => hminus (List.cons.inj ht).1

theorem numeral_of_natural? {sign : Text} {unit : ℤ} (hsign : Sign sign unit)
    (h : natural? t = some m) : Numeral (sign ++ t) (unit * m) := by
  obtain ⟨ds, hds, hlength, rfl⟩ := natural?_eq_some_iff.mp h
  exact .mk hsign hds hlength

theorem integer?_eq_some_iff : integer? t = some n ↔ Numeral t n := by
  constructor
  · fun_cases integer? t with
    | case1 t =>
      intro h
      obtain ⟨m, hm, rfl⟩ := Option.map_eq_some_iff.mp h
      simpa using numeral_of_natural? .plus hm
    | case2 t =>
      -- Here the number is made an integer first and turned negative then.
      intro h
      obtain ⟨k, hk, rfl⟩ := Option.map_eq_some_iff.mp h
      obtain ⟨m, hm, hmk⟩ := Option.bind_eq_some_iff.mp hk
      cases hmk
      simpa using numeral_of_natural? .minus hm
    | case3 =>
      intro h
      obtain ⟨m, hm, rfl⟩ := Option.map_eq_some_iff.mp h
      simpa using numeral_of_natural? .none hm
  · intro h
    obtain @⟨sign, t, unit, ds, hsign, hds, hlength⟩ := h
    have hnatural := natural?_eq_some_iff.mpr ⟨ds, hds, hlength, rfl⟩
    cases hsign with
    | none =>
      rw [List.nil_append, integer?_of_digits hds, hnatural, Int.one_mul]
      rfl
    | plus =>
      rw [List.singleton_append, integer?, hnatural, Int.one_mul]
      rfl
    | minus =>
      rw [List.singleton_append, integer?, hnatural, Int.neg_one_mul]
      rfl

theorem Digits.not_blank (h : Digits t ds) : ∀ c ∈ t, isBlank c = false := by
  have hgap : isBlank '_' = false := by decide
  induction h with
  | last hc => exact List.forall_mem_singleton.mpr hc.not_blank
  | next hc h ih => exact List.forall_mem_cons.mpr ⟨hc.not_blank, ih⟩
  | gap hc h ih =>
    exact List.forall_mem_cons.mpr ⟨hc.not_blank, List.forall_mem_cons.mpr ⟨hgap, ih⟩⟩

theorem Sign.not_blank {sign : Text} {unit : ℤ} (h : Sign sign unit) :
    ∀ c ∈ sign, isBlank c = false := by
  cases h with
  | none => exact List.forall_mem_nil _
  | plus => exact List.forall_mem_singleton.mpr (by decide)
  | minus => exact List.forall_mem_singleton.mpr (by decide)

theorem Numeral.not_blank (h : Numeral t n) : ∀ c ∈ t, isBlank c = false := by
  obtain ⟨hsign, hds, -⟩ := h
  exact List.forall_mem_append.mpr ⟨hsign.not_blank, hds.not_blank⟩

/-- The text is a numeral of the integer with white space around it. -/
inductive Denotes : Text → ℤ → Prop
  | mk {before t after : Text} {n : ℤ} : (∀ c ∈ before, isBlank c) → Numeral t n →
      (∀ c ∈ after, isBlank c) → Denotes (before ++ t ++ after) n

theorem parse?_eq_some_iff : parse? t = some n ↔ Denotes t n := by
  constructor
  · intro h
    obtain ⟨before, after, ht, hbefore, hafter⟩ := Text.exists_padding t
    rw [ht]
    exact .mk hbefore (integer?_eq_some_iff.mp h) hafter
  · intro h
    obtain ⟨hbefore, hnumeral, hafter⟩ := h
    rw [parse?, Text.trim_padded hbefore hafter, Text.trim_of_no_blank hnumeral.not_blank]
    exact integer?_eq_some_iff.mpr hnumeral

instance : Decidable (Denotes t n) := decidable_of_iff _ parse?_eq_some_iff

example : ∀ t ∈ ["", "_1", "1_", "1__2", "+ 1", "--1", "1.0", "0x1"], parse? t.toList = none := by
  decide +kernel

end IntegerText
end ParserRelay
