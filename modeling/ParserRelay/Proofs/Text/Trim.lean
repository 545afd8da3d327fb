import Mathlib.Data.List.TakeWhile
import ParserRelay.Text.Blank
/-!
# White space around a text

Trimming takes away the white space at both ends and nothing else, however much of it there is.
-/
namespace ParserRelay.Text

variable {α : Type} [Coded α]

theorem trimEnd_append_blank (t : List α) {e : List α} (h : ∀ c ∈ e, isBlank c) :
    trimEnd (t ++ e) = trimEnd t := by
  have he : ∀ c ∈ e.reverse, isBlank c = true := by
    intro c hc
    apply h
    exact List.mem_reverse.mp hc
  rw [trimEnd, List.reverse_append, List.dropWhile_append_of_pos he]
  rfl

theorem trim_append_blank (t : List α) {e : List α} (h : ∀ c ∈ e, isBlank c) :
    trim (t ++ e) = trim t := by
  have he : e.dropWhile isBlank = [] := List.dropWhile_eq_nil_iff.mpr h
  rw [trim, trimStart, List.dropWhile_append, he]
  split
  · rename_i ht
    rw [trim, trimStart, List.isEmpty_iff.mp ht]
  · rw [trimEnd_append_blank _ h]
    rfl

theorem trim_padded {s t u : List α} (hs : ∀ c ∈ s, isBlank c) (hu : ∀ c ∈ u, isBlank c) :
    trim (s ++ t ++ u) = trim t := by
  rw [trim_append_blank _ hu, trim, trimStart, List.dropWhile_append_of_pos hs]
  rfl

theorem trim_enclosed {a b : α} (ha : isBlank a = false) (hb : isBlank b = false) (t : List α) :
    trim (a :: (t ++ [b])) = a :: (t ++ [b]) := by
  rw [trim, trimStart, List.dropWhile_cons_of_neg (by simp [ha]), trimEnd, List.reverse_cons,
    List.reverse_append]
  simp [hb]

theorem dropWhile_isBlank_eq_self {t : List α} (h : ∀ c ∈ t, isBlank c = false) :
    t.dropWhile isBlank = t := by
  cases t with
  | nil => rfl
  | cons c t => rw [List.dropWhile_cons_of_neg (by simp [h c List.mem_cons_self])]

theorem trim_of_no_blank {t : List α} (h : ∀ c ∈ t, isBlank c = false) : trim t = t := by
  have hr : ∀ c ∈ t.reverse, isBlank c = false := fun c hc => h c (List.mem_reverse.mp hc)
  rw [trim, trimStart, dropWhile_isBlank_eq_self h, trimEnd, dropWhile_isBlank_eq_self hr,
    List.reverse_reverse]

theorem exists_padding (t : List α) : ∃ s u, t = s ++ trim t ++ u ∧ (∀ c ∈ s, isBlank c) ∧
    ∀ c ∈ u, isBlank c := by
  have hend : trim t ++ ((trimStart t).reverse.takeWhile isBlank).reverse = trimStart t := by
    rw [trim, trimEnd, ← List.reverse_append, List.takeWhile_append_dropWhile, List.reverse_reverse]
  have hstart : t.takeWhile isBlank ++ trimStart t = t := List.takeWhile_append_dropWhile
  refine ⟨t.takeWhile isBlank, ((trimStart t).reverse.takeWhile isBlank).reverse, ?_, ?_, ?_⟩
  · rw [List.append_assoc, hend, hstart]
  · exact fun c hc => List.mem_takeWhile_imp hc
  · exact fun c hc => List.mem_takeWhile_imp (List.mem_reverse.mp hc)

end ParserRelay.Text
