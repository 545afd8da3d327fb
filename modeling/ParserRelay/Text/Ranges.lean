/-! Sets of code points as ascending lists of closed ranges. -/
namespace ParserRelay

abbrev Ranges := List (Nat × Nat)

namespace Ranges

/-- Membership, reading no further than the first range above the point. -/
def mem (n : Nat) : Ranges → Bool
  | [] => false
  | (low, high) :: r => low ≤ n && (n ≤ high || mem n r)

def ascendingFrom (least : Nat) : Ranges → Bool
  | [] => true
  | (low, high) :: r => least ≤ low && low ≤ high && ascendingFrom (high + 1) r

def ascending (r : Ranges) : Bool := ascendingFrom 0 r

theorem le_of_mem_of_ascendingFrom {least : Nat} {r : Ranges} (h : ascendingFrom least r) {p : Nat × Nat}
    (hp : p ∈ r) : least ≤ p.1 := by
  induction r generalizing least with
  | nil => simp at hp
  | cons q r ih =>
    obtain ⟨low, high⟩ := q
    simp only [ascendingFrom, Bool.and_eq_true, decide_eq_true_eq] at h
    rcases List.mem_cons.mp hp with rfl | hp
    · exact h.1.1
    · have := ih h.2 hp
      omega

theorem mem_iff {r : Ranges} (h : r.ascending) {n : Nat} :
    r.mem n ↔ ∃ p ∈ r, p.1 ≤ n ∧ n ≤ p.2 := by
  suffices ∀ least, ascendingFrom least r → (mem n r ↔ ∃ p ∈ r, p.1 ≤ n ∧ n ≤ p.2) from this 0 h
  clear h
  induction r with
  | nil => simp [mem]
  | cons q r ih =>
    intro least h
    obtain ⟨low, high⟩ := q
    simp only [ascendingFrom, Bool.and_eq_true, decide_eq_true_eq] at h
    simp only [mem, Bool.and_eq_true, Bool.or_eq_true, decide_eq_true_eq, List.mem_cons, ih _ h.2]
    constructor
    · rintro ⟨hl, hh | ⟨p, hp, hn⟩⟩
      · exact ⟨_, .inl rfl, hl, hh⟩
      · exact ⟨p, .inr hp, hn⟩
    · rintro ⟨p, rfl | hp, hl, hh⟩
      · exact ⟨hl, .inl hh⟩
      · have := le_of_mem_of_ascendingFrom h.2 hp
        exact ⟨by omega, .inr ⟨p, hp, hl, hh⟩⟩

end Ranges
end ParserRelay
