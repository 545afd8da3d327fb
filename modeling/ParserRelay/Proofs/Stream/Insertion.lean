import Mathlib.Data.List.Basic
import Mathlib.Logic.Relation
import ParserRelay.Proofs.Stream.Lines
/-!
# Lines put into a stream

A whole line that is put in where a line starts is one more line of the stream, and the lines before
and behind it stay as they are. So whatever passes over such lines does not see them.
-/
namespace ParserRelay.LineReader

def EndsLine (b : Bytes) : Prop := b = [] ∨ b.getLast? = some newline

/-- One whole line with the property is put in where a line starts. -/
inductive PutIn (P : Bytes → Prop) : Bytes → Bytes → Prop
  | mk {before line after : Bytes} : EndsLine before → newline ∉ line → P (line ++ [newline]) →
      PutIn P (before ++ after) (before ++ (line ++ newline :: after))

/-- One stream comes from the other by putting in such lines and taking them out, any number of
either. -/
abbrev DifferIn (P : Bytes → Prop) : Bytes → Bytes → Prop := Relation.EqvGen (PutIn P)

variable {P : Bytes → Prop} {a b : Bytes} {ls ms : List Bytes}

theorem EndsLine.behind {r : Bytes} (h : EndsLine (b ++ newline :: r)) : EndsLine r := by
  rcases List.eq_nil_or_concat' r with rfl | ⟨q, x, rfl⟩
  · exact .inl rfl
  · right
    rcases h with h | h
    · simp at h
    · rw [← List.cons_append, ← List.append_assoc, List.getLast?_concat] at h
      rwa [List.getLast?_concat]

theorem IsLines.append (h : IsLines a ls) (ha : EndsLine a) (hb : IsLines b ms) :
    IsLines (a ++ b) (ls ++ ms) := by
  induction h with
  | none => exact hb
  | unended hne hu =>
    -- A last line without its end would run into the second stream.
    rcases ha with ha | ha
    · exact absurd ha hne
    · exact absurd (List.mem_of_getLast? ha) hu
  | ended hu _ ih =>
    rw [List.append_assoc, List.cons_append, List.cons_append]
    exact .ended hu (ih ha.behind)

theorem PutIn.lines_eq (h : PutIn P a b) (limit : ℕ) : ∃ ls l ms, P l ∧
    lines limit a = ls ++ ms ∧ lines limit b = ls ++ l :: ms := by
  cases h with
  | @mk before line after hbefore hline hp =>
    have hfirst := isLines_lines limit before
    have hrest := isLines_lines limit after
    have ha := hfirst.append hbefore hrest
    have hb := hfirst.append hbefore (.ended hline hrest)
    exact ⟨_, _, _, hp, ((isLines_iff limit).mp ha).symm, ((isLines_iff limit).mp hb).symm⟩

theorem filterMap_lines {α : Type} {f : Bytes → Option α} (hf : ∀ l, P l → f l = none)
    (h : DifferIn P a b) (limit : ℕ) : (lines limit a).filterMap f = (lines limit b).filterMap f := by
  induction h with
  | rel a b h =>
    obtain ⟨ls, l, ms, hl, ha, hb⟩ := h.lines_eq limit
    rw [ha, hb, List.filterMap_append, List.filterMap_append, List.filterMap_cons_none (hf l hl)]
  | refl a => rfl
  | symm a b _ ih => exact ih.symm
  | trans a b c _ _ ih ih' => exact ih.trans ih'

theorem filter_lines {p : Bytes → Bool} (hp : ∀ l, P l → p l = false) (h : DifferIn P a b)
    (limit : ℕ) : (lines limit a).filter p = (lines limit b).filter p := by
  have hguard (l : Bytes) (hl : P l) : Option.guard p l = none := by simp [hp l hl]
  rw [← List.filterMap_eq_filter]
  exact filterMap_lines hguard h limit

end ParserRelay.LineReader
