import ParserRelay.Proofs.FileSystem.Contents
import ParserRelay.Proofs.Path.Spelling
/-!
# Paths that the system takes

A path is refused for one of its code points, whatever stands around it. So a path that is taken can
be cut short, and continued with names that are taken.
-/
namespace ParserRelay

/-- The system has a form for it, and it does not end a path. -/
def CodePoint.usable : CodePoint → Bool
  | .char c => c ≠ '\x00'
  | .lone s => WideText.standsForByte s

theorem WideText.refusedFrom_eq_none_iff (n : ℕ) (t : WideText) :
    refusedFrom n t = none ↔ ∀ s, .lone s ∈ t → standsForByte s := by
  induction t generalizing n with
  | nil => simp [refusedFrom]
  | cons c t ih =>
    cases c with
    | char c => simp [refusedFrom, ih]
    | lone s =>
      by_cases hs : standsForByte s
      · simp [refusedFrom, hs, ih]
      · simp [refusedFrom, hs]

theorem WideText.length_le_systemLength (t : WideText) : t.length ≤ t.systemLength := by
  induction t with
  | nil => exact Nat.zero_le _
  | cons c t ih =>
    rw [← List.singleton_append, systemLength, toSystem_append, List.length_append, List.length_append]
    refine Nat.add_le_add ?_ ih
    cases c with
    | char c =>
      obtain ⟨b, r, hc, -⟩ := Text.utf8First_encode c []
      simp [toSystem, hc]
    | lone s => simp [toSystem]

namespace Path

variable {p q : Path} {n : FileName} {t : WideText}

theorem faultOf?_eq_none_iff : faultOf? t = none ↔ ∀ c ∈ t, c.usable := by
  have hlone := WideText.refusedFrom_eq_none_iff 0 t
  unfold faultOf? WideText.refused?
  split
  · rename_i run hrun
    rw [hrun] at hlone
    simp only [reduceCtorEq, false_iff, not_forall] at hlone ⊢
    obtain ⟨s, hs, hno⟩ := hlone
    exact ⟨.lone s, hs, hno⟩
  · rename_i hnone
    have hlone := hlone.mp hnone
    constructor
    · intro h c hc
      cases c with
      | lone s => exact hlone s hc
      | char c =>
        refine decide_eq_true fun hz => ?_
        subst hz
        rw [if_pos (List.contains_iff_mem.mpr hc)] at h
        cases h
    · intro h
      refine if_neg fun hz => ?_
      have hu := h _ (List.contains_iff_mem.mp hz)
      cases hu

theorem fault?_eq_none_iff : p.fault? = none ↔ ∀ n ∈ p.names, ∀ c ∈ n, c.usable := by
  unfold fault?
  rw [faultOf?_eq_none_iff]
  constructor
  · exact fun h n hn c hc => h c (mem_text_of_mem hn hc)
  · intro h c hc
    rcases mem_text hc with rfl | rfl | ⟨n, hn, hc⟩
    · decide
    · decide
    · exact h n hn c hc

theorem length_names_le (p : Path) : p.names.length ≤ p.text.systemLength + 1 := by
  have hjoin := Text.length_le_joinWith slash p.names
  have htext : (Text.joinWith [slash] p.names).length ≤ p.text.length := by
    unfold text
    simp only
    split
    · rename_i he
      rw [List.isEmpty_iff, List.append_eq_nil_iff] at he
      simp [he.2]
    · simp
  have hsystem := WideText.length_le_systemLength p.text
  omega

theorem fault?_of_mem_ancestry (hq : q ∈ p.ancestry) (h : p.fault? = none) : q.fault? = none := by
  have hn := (FileSystem.mem_ancestry.mp hq).2
  exact fault?_eq_none_iff.mpr fun n hm => fault?_eq_none_iff.mp h n (hn.subset hm)

theorem fault?_child (h : p.fault? = none) (hn : ∀ c ∈ n, c.usable) : (p.child n).fault? = none := by
  refine fault?_eq_none_iff.mpr fun m hm => ?_
  rcases List.mem_append.mp hm with hm | hm
  · exact fault?_eq_none_iff.mp h m hm
  · rw [List.mem_singleton.mp hm]
    exact hn

end Path
end ParserRelay
