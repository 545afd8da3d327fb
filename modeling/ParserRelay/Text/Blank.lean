import ParserRelay.Text.Basic
import ParserRelay.Text.Ranges
/-! White space of Unicode together with the four information separators, and the cuts made at it. -/
namespace ParserRelay.Text

/-- The white space characters: those of the Unicode property and U+001C to U+001F. -/
def blankRanges : Ranges := [(0x09, 0x0D), (0x1C, 0x20), (0x85, 0x85), (0xA0, 0xA0), (0x1680, 0x1680),
  (0x2000, 0x200A), (0x2028, 0x2029), (0x202F, 0x202F), (0x205F, 0x205F), (0x3000, 0x3000)]

variable {α : Type} [Coded α]

def isBlank (c : α) : Bool := blankRanges.mem (Coded.code c)

def trimStart (t : List α) : List α := t.dropWhile isBlank
def trimEnd (t : List α) : List α := (t.reverse.dropWhile isBlank).reverse

def trim (t : List α) : List α := trimEnd (trimStart t)

def allBlank (t : List α) : Bool := t.all isBlank

def cutWords : List α → List α × List (List α)
  | [] => ([], [])
  | c :: t => match cutWords t with
    | (w, ws) => if isBlank c then ([], if w.isEmpty then ws else w :: ws) else (c :: w, ws)

def words (t : List α) : List (List α) := match cutWords t with
  | (w, ws) => if w.isEmpty then ws else w :: ws

theorem cutWords_append_blank (s t : List α) {c : α} (h : isBlank c) :
    cutWords (s ++ c :: t) = ((cutWords s).1, (cutWords s).2 ++ words t) := by
  induction s with
  | nil => simp [cutWords, words, h]
  | cons d s ih =>
    rw [List.cons_append, cutWords, ih]
    by_cases hd : isBlank d
    · by_cases hw : (cutWords s).1 = [] <;> simp [cutWords, hd, hw]
    · simp [cutWords, hd]

theorem words_append_blank (s t : List α) {c : α} (h : isBlank c) :
    words (s ++ c :: t) = words s ++ words t := by
  unfold words
  rw [cutWords_append_blank s t h]
  by_cases hw : (cutWords s).1 = [] <;> simp [hw, words]

theorem cutWords_of_no_blank {w : List α} (h : ∀ c ∈ w, ¬ isBlank c) : cutWords w = (w, []) := by
  induction w with
  | nil => rfl
  | cons c w ih =>
    have hc : isBlank c = false := by simpa using h c (by simp)
    simp [cutWords, ih fun d hd => h d (by simp [hd]), hc]

theorem words_of_no_blank {w : List α} (hw : w ≠ []) (h : ∀ c ∈ w, ¬ isBlank c) : words w = [w] := by
  simp [words, cutWords_of_no_blank h, hw]

theorem not_blank_of_mem_words {t w : List α} (h : w ∈ words t) : w ≠ [] ∧ ∀ c ∈ w, ¬ isBlank c := by
  have cut : ∀ t : List α, (∀ c ∈ (cutWords t).1, ¬ isBlank c) ∧
      ∀ w ∈ (cutWords t).2, w ≠ [] ∧ ∀ c ∈ w, ¬ isBlank c := by
    intro t
    induction t with
    | nil => simp [cutWords]
    | cons c t ih =>
      by_cases hc : isBlank c
      · by_cases hw : (cutWords t).1 = []
        · simpa [cutWords, hc, hw] using ih.2
        · simpa [cutWords, hc, hw] using And.intro ih.1 ih.2
      · simpa [cutWords, hc] using ih
  rw [words] at h
  by_cases hw : (cutWords t).1 = []
  · exact (cut t).2 w (by simpa [hw] using h)
  · rcases List.mem_cons.mp (by simpa [hw] using h) with rfl | hm
    · exact ⟨hw, (cut t).1⟩
    · exact (cut t).2 w hm

end ParserRelay.Text
