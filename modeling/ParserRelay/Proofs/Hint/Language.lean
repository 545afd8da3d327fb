import Mathlib
import ParserRelay.Hint.Compose
/-!
# What the table of hints looks for

Each entry of the table looks for a set of texts, given here without the search. An entry is told if
one of its texts stands somewhere in the error text.
-/
namespace ParserRelay.Hint

/-- The code points that stand for a character of a phrase: both its cases, and the four others that
Unicode has as cases of `i`, `k` and `s`. -/
inductive Variant (p : Char) : CodePoint → Prop
  | upper : Variant p (.char p.toUpper)
  | lower : Variant p (.char p.toLower)
  | dotted : p.toLower = 'i' → Variant p (.char '\u0130')
  | dotless : p.toLower = 'i' → Variant p (.char '\u0131')
  | kelvin : p.toLower = 'k' → Variant p (.char '\u212A')
  | long : p.toLower = 's' → Variant p (.char '\u017F')

def Spells (phrase : String) (w : WideText) : Prop := List.Forall₂ Variant phrase.toList w

def phrases : ℕ → List String
  | 1 => ["SDK location not found", "ANDROID_HOME", "ANDROID_SDK_ROOT"]
  | 2 => ["Unsupported class file major version", "incompatible with Java", "JAVA_HOME"]
  | 4 => ["GradleWrapperMain", "gradle-wrapper.jar"]
  | 5 => ["permission denied"]
  | _ => []

def kinds : List String := ["dependencies", "files", "artifacts"]

def nameChar (c : CodePoint) : Bool := Text.isWordChar c || c = .char '.' || c = .char '-'

def beginsInWord (t : WideText) : Bool := t.head?.any Text.isWordChar

def endsInWord (t : WideText) : Bool := t.getLast?.any Text.isWordChar

/-- The texts that the entry at a place looks for. -/
inductive Telling : ℕ → WideText → Prop
  /-- The task ends its word, and the phrase begins one later in the same line. -/
  | missingTask {task gap missing : WideText} : Spells "task" task → Spells "not found" missing →
      .char '\n' ∉ gap → ¬ beginsInWord (gap ++ missing) → ¬ endsInWord (task ++ gap) →
      Telling 0 (task ++ gap ++ missing)
  | phrase {i : ℕ} {p : String} {w : WideText} : p ∈ phrases i → Spells p w → Telling i w
  | requiredJava {w : WideText} {d : CodePoint} : Spells "requires Java " w → Text.isDigit d →
      Telling 2 (w ++ [d])
  | unresolved {all kind : String} {w : WideText} : all ∈ ["", "all "] → kind ∈ kinds →
      Spells ("Could not resolve " ++ all ++ kind) w → Telling 3 w
  | coordinate {w name : WideText} : Spells "Could not resolve " w → name ≠ [] →
      (∀ c ∈ name, nameChar c) → Telling 3 (w ++ name ++ [.char ':'])

/-- A text of the entry stands somewhere in the error text. -/
def Tells (i : ℕ) (t : WideText) : Prop := ∃ w, Telling i w ∧ w <:+: t

def Opens (i : ℕ) (t : WideText) : Prop := ∃ w, Telling i w ∧ w <+: t

variable {i : ℕ} {p : Char} {c : CodePoint} {phrase : String} {t w : WideText}

section Phrases

theorem variant_of_toLower {q : Char} (h : p.toLower = q.toLower) : Variant p (.char q) := by
  by_cases hq : q.isUpper
  · have hu : p.toUpper = q := by
      rw [← Char.toUpper_toLower_eq_toUpper, h, Char.toUpper_toLower_eq_toUpper]
      exact Char.toUpper_eq_of_not_isLower (Char.not_isLower_of_isUpper hq)
    exact hu ▸ .upper
  · rw [Char.toLower_eq_of_not_isUpper hq] at h
    exact h ▸ .lower

theorem forall₂_append_iff {α β : Type} {R : α → β → Prop} {a b : List α} {l : List β} :
    List.Forall₂ R (a ++ b) l ↔ ∃ u v, List.Forall₂ R a u ∧ List.Forall₂ R b v ∧ l = u ++ v := by
  induction a generalizing l with
  | nil => simp
  | cons x a ih =>
    simp only [List.cons_append, List.forall₂_cons_left_iff, ih]
    constructor
    · rintro ⟨y, _, hxy, ⟨u, v, hu, hv, rfl⟩, rfl⟩
      exact ⟨y :: u, v, ⟨y, u, hxy, hu, rfl⟩, hv, rfl⟩
    · rintro ⟨_, v, ⟨y, u, hxy, hu, rfl⟩, hv, rfl⟩
      exact ⟨y, u ++ v, hxy, ⟨u, v, hu, hv, rfl⟩, rfl⟩

theorem spells_append_iff {p q : String} :
    Spells (p ++ q) w ↔ ∃ u v, Spells p u ∧ Spells q v ∧ w = u ++ v := by
  rw [Spells, String.toList_append, forall₂_append_iff]
  rfl

theorem Spells.ne_nil (h : Spells phrase w) (hp : phrase.toList ≠ []) : w ≠ [] := by
  rintro rfl
  exact hp (List.forall₂_nil_right_iff.mp h)

end Phrases

section Words

theorem beginsInWord_append (h : t ≠ []) (r : WideText) :
    beginsInWord (t ++ r) = beginsInWord t := by
  obtain ⟨c, t, rfl⟩ := List.exists_cons_of_ne_nil h
  rfl

theorem isWordChar_of_variant (h : Variant 'k' c) : Text.isWordChar c := by
  cases h with
  | upper | lower | kelvin => decide +kernel
  | dotted h | dotless h | long h => exact absurd h (by decide)

theorem endsInWord_task {task : WideText} (h : Spells "task" task) (gap : WideText) :
    endsInWord (task ++ gap) = endsInWord (.char 'k' :: gap) := by
  cases gap with
  | nil =>
    obtain ⟨u, v, -, hv, rfl⟩ := spells_append_iff.mp (show Spells ("tas" ++ "k") task from h)
    obtain ⟨k, _, hk, hnil, rfl⟩ := List.forall₂_cons_left_iff.mp hv
    obtain rfl := List.forall₂_nil_left_iff.mp hnil
    have hword : endsInWord [.char 'k'] = true := by decide
    simpa [endsInWord] using (isWordChar_of_variant hk).trans hword.symm
  | cons c gap => rw [endsInWord, endsInWord, List.getLast?_append_cons, List.getLast?_cons_cons]

end Words

section Entries

theorem Telling.plain (h : Telling i w) (hi : i ∉ [0, 2, 3]) : ∃ p ∈ phrases i, Spells p w := by
  cases h with
  | phrase hp hw => exact ⟨_, hp, hw⟩
  | _ => simp at hi

theorem Telling.lt (h : Telling i w) : i < composeTable.length := by
  cases h with
  | phrase hp =>
    unfold phrases at hp
    split at hp
    · decide
    · decide
    · decide
    · decide
    · cases hp
  | _ => decide

theorem Tells.lt (h : Tells i t) : i < composeTable.length := by
  obtain ⟨w, hw, -⟩ := h
  exact hw.lt

theorem tells_iff_opens : Tells i t ↔ ∃ s, s <:+ t ∧ Opens i s := by
  constructor
  · rintro ⟨w, hw, h⟩
    obtain ⟨s, hp, hs⟩ := List.infix_iff_prefix_suffix.mp h
    exact ⟨s, hs, w, hw, hp⟩
  · rintro ⟨s, hs, w, hw, hp⟩
    exact ⟨w, hw, List.infix_iff_prefix_suffix.mpr ⟨s, hp, hs⟩⟩

end Entries

end ParserRelay.Hint
