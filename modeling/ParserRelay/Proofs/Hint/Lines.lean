import ParserRelay.Proofs.Hint.Search
import ParserRelay.Proofs.Text.Join
/-!
# Hints and lines

No text that the table looks for goes over the end of a line, so an entry is found in an error text
exactly if it is found in one of its lines. The hint is the foremost of the hints of the lines, in
whatever order and however often they stand there.
-/
namespace ParserRelay.Hint
open WideText (ofText ofString)

/-- The place of a hint in the table; without a hint it is behind them all. -/
def rank (hint : Option WideText) : ℕ :=
  composeTable.findIdx fun e => hint = some (ofText e.advice)

variable {i : ℕ} {p : Char} {c : CodePoint} {phrase : String} {a b s t w : WideText}

section OneLine

theorem Variant.eq_newline (h : Variant p (.char '\n')) : p = '\n' := by
  generalize hc : CodePoint.char '\n' = c at h
  cases h with
  | upper =>
    have hp : '\n' = p.toUpper := CodePoint.char.inj hc
    have ha : ¬ p.isAlpha := by
      rw [← Char.isAlpha_toUpper_eq_isAlpha, ← hp]
      decide
    rw [hp, Char.toUpper_eq_of_not_isLower fun hl => ha (by simp [Char.isAlpha, hl])]
  | lower =>
    have hp : '\n' = p.toLower := CodePoint.char.inj hc
    have ha : ¬ p.isAlpha := by
      rw [← Char.isAlpha_toLower_eq_isAlpha, ← hp]
      decide
    rw [hp, Char.toLower_eq_of_not_isUpper fun hu => ha (by simp [Char.isAlpha, hu])]
  | _ => exact absurd hc (by decide)

theorem variant_of_mem {ps : Text} (h : List.Forall₂ Variant ps w) (hc : c ∈ w) :
    ∃ p ∈ ps, Variant p c := by
  induction h with
  | nil => cases hc
  | @cons p d ps w hd _ ih =>
    rcases List.mem_cons.mp hc with rfl | hc
    · exact ⟨p, List.mem_cons_self, hd⟩
    · obtain ⟨q, hq, hv⟩ := ih hc
      exact ⟨q, List.mem_cons_of_mem p hq, hv⟩

theorem Spells.one_line (h : Spells phrase w) (hp : '\n' ∉ phrase.toList) : .char '\n' ∉ w := by
  intro hm
  obtain ⟨p, hpm, hv⟩ := variant_of_mem h hm
  exact hp (hv.eq_newline ▸ hpm)

theorem one_line_phrases : ∀ p ∈ phrases i, '\n' ∉ p.toList := by
  unfold phrases
  split <;> decide

theorem one_line_unresolved : ∀ all ∈ ["", "all "], ∀ kind ∈ kinds,
    '\n' ∉ ("Could not resolve " ++ all ++ kind).toList := by
  decide

theorem Telling.one_line (h : Telling i w) : .char '\n' ∉ w := by
  cases h with
  | missingTask htask hmissing hgap =>
    have ht := htask.one_line (by decide)
    have hm := hmissing.one_line (by decide)
    simp [ht, hm, hgap]
  | phrase hp hw => exact hw.one_line (one_line_phrases _ hp)
  | @requiredJava w d hw hd =>
    have hne : .char '\n' ≠ d := by
      rintro rfl
      exact absurd hd (by decide)
    simpa [hne] using hw.one_line (by decide)
  | unresolved hall hkind hw => exact hw.one_line (one_line_unresolved _ hall _ hkind)
  | @coordinate w name hw _ hname =>
    have hn : .char '\n' ∉ name := fun hm => absurd (hname _ hm) (by decide)
    simpa [hn] using hw.one_line (by decide)

theorem infix_append_cons_iff {α : Type} {x : α} {u v w : List α} (hx : x ∉ w) :
    w <:+: u ++ x :: v ↔ w <:+: u ∨ w <:+: v := by
  have hseam {l r : List α} (hw : w = l ++ r) (hr : r <+: x :: v) : w = l := by
    rcases List.prefix_cons_iff.mp hr with rfl | ⟨t, rfl, -⟩
    · rw [hw, List.append_nil]
    · simp [hw] at hx
  constructor
  · intro h
    rcases List.infix_append_iff.mp h with h | h | ⟨l, r, hw, hl, hr⟩
    · exact .inl h
    · rcases List.infix_cons_iff.mp h with h | h
      · exact .inl (hseam (List.nil_append w).symm h ▸ List.nil_infix)
      · exact .inr h
    · exact .inl (hseam hw hr ▸ hl.isInfix)
  · intro h
    rcases h with h | h
    · exact h.trans (List.prefix_append u _).isInfix
    · exact h.trans ((List.suffix_cons x v).trans (List.suffix_append u _)).isInfix

theorem tells_append_iff : Tells i (a ++ .char '\n' :: b) ↔ Tells i a ∨ Tells i b := by
  constructor
  · intro h
    obtain ⟨w, hw, hi⟩ := h
    rcases (infix_append_cons_iff hw.one_line).mp hi with hi | hi
    · exact .inl ⟨w, hw, hi⟩
    · exact .inr ⟨w, hw, hi⟩
  · intro h
    rcases h with ⟨w, hw, hi⟩ | ⟨w, hw, hi⟩
    · exact ⟨w, hw, (infix_append_cons_iff hw.one_line).mpr (.inl hi)⟩
    · exact ⟨w, hw, (infix_append_cons_iff hw.one_line).mpr (.inr hi)⟩

theorem not_tells_nil : ¬ Tells i [] := hint_eq_none_iff.mp rfl i

theorem tells_joinWith_iff {ls : List WideText} :
    Tells i (Text.joinWith [.char '\n'] ls) ↔ ∃ l ∈ ls, Tells i l := by
  induction ls with
  | nil => simpa [Text.joinWith] using not_tells_nil
  | cons l r ih =>
    cases r with
    | nil => simp [Text.joinWith]
    | cons m r =>
      rw [Text.joinWith, List.append_assoc, List.singleton_append, tells_append_iff, ih]
      simp

theorem tells_iff_lines : Tells i t ↔ ∃ l ∈ Text.splitOn (.char '\n') t, Tells i l := by
  rw [← tells_joinWith_iff, Text.joinWith_splitOn]

end OneLine

section Rank

theorem advice_nodup : (composeTable.map Entry.advice).Nodup := by
  simp only [composeTable, List.map_cons, List.map_nil, List.nodup_cons, List.mem_cons,
    List.not_mem_nil, String.toList_inj, or_false, not_or]
  simp

theorem rank_entry (hi : i < composeTable.length) :
    rank (some (ofText composeTable[i].advice)) = i := by
  apply (List.findIdx_eq hi).mpr
  refine ⟨by simp, fun j hj => decide_eq_false fun h => hj.ne' ?_⟩
  have hadvice : composeTable[i].advice = composeTable[j].advice :=
    List.map_injective_iff.mpr (fun _ _ => CodePoint.char.inj) (Option.some.inj h)
  apply (List.getElem?_inj (by simpa using hi) advice_nodup).mp
  rw [List.getElem?_map, List.getElem?_map, List.getElem?_eq_getElem hi,
    List.getElem?_eq_getElem (hj.trans hi), Option.map_some, Option.map_some, hadvice]

theorem rank_hint (t : WideText) : rank (Descriptor.compose.hint t) = place t := by
  rw [hint_eq]
  rcases (place_le_length t).eq_or_lt with h | h
  · rw [h]
    rfl
  · rw [List.getElem?_eq_getElem h]
    exact rank_entry h

theorem place_append (a b : WideText) :
    place (a ++ .char '\n' :: b) = min (place a) (place b) := by
  apply Nat.le_antisymm
  · exact le_min (place_anti fun i h => tells_append_iff.mpr (.inl h))
      (place_anti fun i h => tells_append_iff.mpr (.inr h))
  · by_contra hlt
    have hs := Nat.lt_of_not_le hlt
    have hlen := hs.trans_le ((min_le_left _ _).trans (place_le_length a))
    rcases tells_append_iff.mp (tells_place hlen) with h | h
    · exact not_tells_of_lt_place (hs.trans_le (min_le_left _ _)) h
    · exact not_tells_of_lt_place (hs.trans_le (min_le_right _ _)) h

theorem hint_append (a b : WideText) : Descriptor.compose.hint (a ++ .char '\n' :: b) =
    if rank (Descriptor.compose.hint b) < rank (Descriptor.compose.hint a) then
      Descriptor.compose.hint b else Descriptor.compose.hint a := by
  rw [rank_hint, rank_hint]
  split
  · rename_i h
    exact hint_congr ((place_append a b).trans (min_eq_right h.le))
  · rename_i h
    exact hint_congr ((place_append a b).trans (min_eq_left (Nat.le_of_not_lt h)))

theorem place_anti_lines
    (h : ∀ l ∈ Text.splitOn (.char '\n') s, l ∈ Text.splitOn (.char '\n') t) :
    place t ≤ place s := by
  apply place_anti
  intro i hi
  obtain ⟨l, hl, hi⟩ := tells_iff_lines.mp hi
  exact tells_iff_lines.mpr ⟨l, h l hl, hi⟩

theorem hint_ne_none_iff : Descriptor.compose.hint t ≠ none ↔ place t < composeTable.length := by
  rw [hint_eq, Ne, Option.map_eq_none_iff, List.getElem?_eq_none_iff, Nat.not_le]

/-- The hint of a text put together from two, with a line break between them, is the foremost of
theirs. So the order and the repetition of lines do not matter, and further lines do not take a
hint away or put a later one in its place. -/
theorem hint_of_lines :
    (∀ a b, Descriptor.compose.hint (a ++ .char '\n' :: b) =
      if rank (Descriptor.compose.hint b) < rank (Descriptor.compose.hint a) then
        Descriptor.compose.hint b else Descriptor.compose.hint a) ∧
    (∀ s t, (∀ l, l ∈ Text.splitOn (.char '\n') s ↔ l ∈ Text.splitOn (.char '\n') t) →
      Descriptor.compose.hint s = Descriptor.compose.hint t) ∧
    ∀ s t, (∀ l ∈ Text.splitOn (.char '\n') s, l ∈ Text.splitOn (.char '\n') t) →
      rank (Descriptor.compose.hint t) ≤ rank (Descriptor.compose.hint s) ∧
      (Descriptor.compose.hint s ≠ none → Descriptor.compose.hint t ≠ none) := by
  refine ⟨hint_append, fun s t h => ?_, fun s t h => ?_⟩
  · apply hint_congr
    exact Nat.le_antisymm (place_anti_lines fun l hl => (h l).mpr hl)
      (place_anti_lines fun l hl => (h l).mp hl)
  · have hle := place_anti_lines h
    rw [rank_hint, rank_hint, hint_ne_none_iff, hint_ne_none_iff]
    exact ⟨hle, hle.trans_lt⟩

def unsetThenMissing : WideText := ofString "JAVA_HOME is not set\ntask not found"

def missingAround : WideText := ofString "task not found\nJAVA_HOME is not set\ntask not found"

theorem hint_of_missingAround :
    Text.splitOn (.char '\n') unsetThenMissing =
      [ofString "JAVA_HOME is not set", ofString "task not found"] ∧
    Text.splitOn (.char '\n') missingAround =
      [ofString "task not found", ofString "JAVA_HOME is not set", ofString "task not found"] ∧
    Descriptor.compose.hint unsetThenMissing = Descriptor.compose.hint missingAround ∧
    rank (Descriptor.compose.hint missingAround) ≤ rank (Descriptor.compose.hint unsetThenMissing) ∧
    Descriptor.compose.hint missingAround ≠ none := by
  have hs : Text.splitOn (.char '\n') unsetThenMissing =
    [ofString "JAVA_HOME is not set", ofString "task not found"] := by decide +kernel
  have ht : Text.splitOn (.char '\n') missingAround =
    [ofString "task not found", ofString "JAVA_HOME is not set", ofString "task not found"] := by
      decide +kernel
  have hlines (l : WideText) : l ∈ Text.splitOn (.char '\n') unsetThenMissing ↔
      l ∈ Text.splitOn (.char '\n') missingAround := by
    rw [hs, ht, List.mem_cons (b := ofString "task not found")]
    exact (or_iff_right_of_imp fun h => h ▸ by simp).symm
  have hsome : (Descriptor.compose.hint unsetThenMissing).isSome := by decide +kernel
  obtain ⟨hrank, hnone⟩ := hint_of_lines.2.2 _ _ fun l h => (hlines l).mp h
  exact ⟨hs, ht, hint_of_lines.2.1 _ _ hlines, hrank, hnone (Option.isSome_iff_ne_none.mp hsome)⟩

end Rank
end ParserRelay.Hint
