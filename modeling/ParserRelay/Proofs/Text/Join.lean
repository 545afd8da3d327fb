import ParserRelay.Text.Blank
/-!
# Texts cut and joined

Pieces without the separator are found again in the text that they are joined to, and what the
joined text is made of comes from the pieces and the separators.
-/
namespace ParserRelay.Text

variable {α : Type} {c : α} {s t : List α} {ts : List (List α)}

section Splitting

variable [DecidableEq α] {a : α}

theorem splitOn_ne_nil (a : α) (t : List α) : splitOn a t ≠ [] := by
  induction t with
  | nil => simp [splitOn]
  | cons c t ih =>
    unfold splitOn
    split
    · simp
    · split <;> simp

theorem splitOn_of_not_mem (h : a ∉ t) : splitOn a t = [t] := by
  induction t with
  | nil => rfl
  | cons c t ih =>
    obtain ⟨hc, ht⟩ := not_or.mp (mt List.mem_cons.mpr h)
    rw [splitOn, ih ht]
    simp only
    rw [if_neg (Ne.symm hc)]

theorem splitOn_append (h : a ∉ s) (t : List α) : splitOn a (s ++ a :: t) = s :: splitOn a t := by
  induction s with
  | nil =>
    obtain ⟨p, r, hp⟩ := List.exists_cons_of_ne_nil (splitOn_ne_nil a t)
    rw [List.nil_append, splitOn, hp]
    simp
  | cons c s ih =>
    obtain ⟨hc, hs⟩ := not_or.mp (mt List.mem_cons.mpr h)
    rw [List.cons_append, splitOn, ih hs]
    simp only
    rw [if_neg (Ne.symm hc)]

theorem splitOn_append_cons (a : α) (s t : List α) :
    splitOn a (s ++ a :: t) = splitOn a s ++ splitOn a t := by
  induction s with
  | nil => exact splitOn_append List.not_mem_nil t
  | cons c s ih =>
    obtain ⟨p, r, hp⟩ := List.exists_cons_of_ne_nil (splitOn_ne_nil a s)
    rw [List.cons_append, splitOn, ih, splitOn, hp]
    simp only [List.cons_append]
    split <;> rfl

theorem splitOn_joinWith (hne : ts ≠ []) (h : ∀ t ∈ ts, a ∉ t) :
    splitOn a (joinWith [a] ts) = ts := by
  induction ts with
  | nil => exact absurd rfl hne
  | cons t r ih =>
    have ht : a ∉ t := h t List.mem_cons_self
    cases r with
    | nil => exact splitOn_of_not_mem ht
    | cons u r =>
      rw [joinWith, List.append_assoc, List.singleton_append, splitOn_append ht]
      rw [ih (by simp) (fun v hv => h v (List.mem_cons_of_mem t hv))]

theorem joinWith_splitOn (a : α) (t : List α) : joinWith [a] (splitOn a t) = t := by
  induction t with
  | nil => rfl
  | cons c t ih =>
    obtain ⟨p, r, hp⟩ := List.exists_cons_of_ne_nil (splitOn_ne_nil a t)
    rw [hp] at ih
    rw [splitOn, hp]
    simp only
    split
    · rename_i hc
      rw [joinWith, ih, hc]
      rfl
    · rw [← ih]
      cases r <;> rfl

theorem splitOn_pieces (h : s ∈ splitOn a t) : a ∉ s ∧ ∀ c ∈ s, c ∈ t := by
  induction t generalizing s with
  | nil =>
    obtain rfl : s = [] := by simpa [splitOn] using h
    simp
  | cons d t ih =>
    obtain ⟨p, r, hp⟩ := List.exists_cons_of_ne_nil (splitOn_ne_nil a t)
    have hfirst := ih (hp ▸ List.mem_cons_self)
    have hrest : ∀ q ∈ r, a ∉ q ∧ ∀ c ∈ q, c ∈ d :: t := by
      intro q hq
      obtain ⟨hn, hm⟩ := ih (hp ▸ List.mem_cons_of_mem p hq)
      exact ⟨hn, fun c hc => List.mem_cons_of_mem d (hm c hc)⟩
    rw [splitOn, hp] at h
    simp only at h
    split at h
    · rcases List.mem_cons.mp h with rfl | h
      · simp
      rcases List.mem_cons.mp h with rfl | h
      · exact ⟨hfirst.1, fun c hc => List.mem_cons_of_mem d (hfirst.2 c hc)⟩
      · exact hrest s h
    · rename_i hd
      rcases List.mem_cons.mp h with rfl | h
      · refine ⟨mt List.mem_cons.mp (not_or.mpr ⟨Ne.symm hd, hfirst.1⟩), fun c hc => ?_⟩
        rcases List.mem_cons.mp hc with rfl | hc
        · exact List.mem_cons_self
        · exact List.mem_cons_of_mem d (hfirst.2 c hc)
      · exact hrest s h

end Splitting

theorem length_le_joinWith (c : α) (ts : List (List α)) :
    ts.length ≤ (joinWith [c] ts).length + 1 := by
  induction ts with
  | nil => exact Nat.zero_le _
  | cons t r ih =>
    cases r with
    | nil => simp
    | cons u r =>
      rw [joinWith, List.length_append, List.length_append, List.length_cons]
      simp only [List.length_cons, List.length_nil] at ih ⊢
      omega

theorem mem_joinWith (h : c ∈ joinWith s ts) : c ∈ s ∨ ∃ t ∈ ts, c ∈ t := by
  induction ts with
  | nil => cases h
  | cons t r ih =>
    cases r with
    | nil => exact .inr ⟨t, List.mem_cons_self, h⟩
    | cons u r =>
      rw [joinWith, List.mem_append, List.mem_append] at h
      rcases h with (h | h) | h
      · exact .inr ⟨t, List.mem_cons_self, h⟩
      · exact .inl h
      · rcases ih h with h | ⟨v, hv, hc⟩
        · exact .inl h
        · exact .inr ⟨v, List.mem_cons_of_mem t hv, hc⟩

theorem mem_joinWith_of_mem (s : List α) (ht : t ∈ ts) (hc : c ∈ t) : c ∈ joinWith s ts := by
  induction ts with
  | nil => cases ht
  | cons u r ih =>
    cases r with
    | nil =>
      obtain rfl := List.mem_singleton.mp ht
      exact hc
    | cons v r =>
      rw [joinWith, List.mem_append]
      rcases List.mem_cons.mp ht with rfl | ht
      · exact .inl (List.mem_append_left _ hc)
      · exact .inr (ih ht)

theorem joinWith_mono (s : List α) {ts us : List (List α)} (h : ts <+: us) :
    joinWith s ts <+: joinWith s us := by
  induction ts generalizing us with
  | nil => exact List.nil_prefix
  | cons t r ih =>
    obtain ⟨us, rfl, hr⟩ : ∃ us', us = t :: us' ∧ r <+: us' := by
      obtain ⟨u, rfl⟩ := h
      exact ⟨r ++ u, rfl, List.prefix_append r u⟩
    cases r with
    | nil =>
      cases us with
      | nil => exact List.prefix_refl _
      | cons k us => exact (List.prefix_append t _).trans (List.prefix_append _ _)
    | cons k r =>
      cases us with
      | nil => simp at hr
      | cons k' us => exact List.prefix_append_right_inj _ |>.mpr (ih hr)

theorem prefix_joinWith (s t : List α) (ts : List (List α)) : t <+: joinWith s (t :: ts) :=
  joinWith_mono s (List.prefix_append [t] ts)

theorem joinWith_map {β : Type} (f : α → β) (s : List α) (ts : List (List α)) :
    (joinWith s ts).map f = joinWith (s.map f) (ts.map (List.map f)) := by
  induction ts with
  | nil => rfl
  | cons t r ih =>
    cases r with
    | nil => rfl
    | cons u r => simp_all [joinWith]

theorem words_joinWith [Coded α] (hc : isBlank c) (h : ∀ t ∈ ts, t ≠ [] ∧ ∀ d ∈ t, ¬ isBlank d) :
    words (joinWith [c] ts) = ts := by
  induction ts with
  | nil => rfl
  | cons t r ih =>
    obtain ⟨hne, ht⟩ := h t List.mem_cons_self
    cases r with
    | nil => exact words_of_no_blank hne ht
    | cons u r =>
      rw [joinWith, List.append_assoc, List.singleton_append, words_append_blank _ _ hc,
        words_of_no_blank hne ht, ih (fun v hv => h v (List.mem_cons_of_mem t hv))]
      rfl

end ParserRelay.Text
