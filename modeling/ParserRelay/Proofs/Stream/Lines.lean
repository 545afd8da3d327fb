import Mathlib.Data.List.TakeWhile
import ParserRelay.Run.Basic
/-!
# The lines of a byte stream

The reading loop is taken as an execution derivation over its attempts, with no bound on their
number. Every stream has a derivation for every limit, and what it hands on are the maximal lines of
the stream: each ends with the first line end behind its start, and bytes behind the last line end
are a line of their own.
-/
namespace ParserRelay.LineReader

inductive IsLines : Bytes → List Bytes → Prop
  | none : IsLines [] []
  | unended {b : Bytes} : b ≠ [] → newline ∉ b → IsLines b [b]
  | ended {b r : Bytes} {ls : List Bytes} :
      newline ∉ b → IsLines r ls → IsLines (b ++ newline :: r) ((b ++ [newline]) :: ls)

/-- A whole execution of the reading loop from a state with pieces of a line pending. A line handed
on leaves nothing pending, an overrun moves bytes behind the pending ones, and the end of the stream
hands on what is left, if anything. -/
inductive Reads (limit : Nat) : Bytes → Bytes → List Bytes → Prop
  | line {pending buffer l rest : Bytes} {ls : List Bytes} :
      readLine limit buffer = .line l rest → Reads limit [] rest ls →
      Reads limit pending buffer ((pending ++ l) :: ls)
  | overrun {pending buffer : Bytes} {n : Nat} {ls : List Bytes} :
      readLine limit buffer = .overrun n →
      Reads limit (pending ++ buffer.take n) (buffer.drop n) ls → Reads limit pending buffer ls
  | nothing {buffer : Bytes} : readLine limit buffer = .ended [] → Reads limit [] buffer []
  | rest {pending buffer rest : Bytes} :
      readLine limit buffer = .ended rest → pending ++ rest ≠ [] →
      Reads limit pending buffer [pending ++ rest]

theorem eq_unended_or_ended (s : Bytes) :
    newline ∉ s ∨ ∃ b r, newline ∉ b ∧ s = b ++ newline :: r := by
  by_cases h : newline ∈ s
  · obtain ⟨b, r, hs, hb⟩ := List.eq_append_cons_of_mem h
    exact Or.inr ⟨b, r, hb, hs⟩
  · exact Or.inl h

theorem ne_newline_of_mem {b : Bytes} (h : newline ∉ b) : ∀ x ∈ b, decide (x ≠ newline) = true := by
  intro x hx
  rw [decide_eq_true_eq]
  intro he
  apply h
  rw [← he]
  exact hx

theorem readLine_unended {b : Bytes} (h : newline ∉ b) (limit : Nat) :
    readLine limit b = if limit < b.length then .overrun b.length else .ended b := by
  have hd : b.dropWhile (· ≠ newline) = [] := by
    rw [List.dropWhile_eq_nil_iff]
    exact ne_newline_of_mem h
  rw [readLine, hd]

theorem readLine_ended {b : Bytes} (h : newline ∉ b) (r : Bytes) (limit : Nat) :
    readLine limit (b ++ newline :: r) =
      if limit < b.length then .overrun b.length else .line (b ++ [newline]) r := by
  have hb := ne_newline_of_mem h
  have hd : (b ++ newline :: r).dropWhile (· ≠ newline) = newline :: r := by
    rw [List.dropWhile_append_of_pos hb]
    simp
  have ht : (b ++ newline :: r).takeWhile (· ≠ newline) = b := by
    rw [List.takeWhile_append_of_pos hb]
    simp
  rw [readLine, hd, ht]

def Attempt.Tells (limit : Nat) (buffer : Bytes) : Attempt → Prop
  | .line l r =>
    ∃ b, newline ∉ b ∧ b.length ≤ limit ∧ l = b ++ [newline] ∧ buffer = b ++ newline :: r
  | .overrun n => limit < n ∧ n ≤ buffer.length ∧ newline ∉ buffer.take n
  | .ended r => r = buffer ∧ newline ∉ buffer ∧ buffer.length ≤ limit

theorem tells_of_readLine {limit : Nat} {buffer : Bytes} {a : Attempt}
    (h : readLine limit buffer = a) : a.Tells limit buffer := by
  rw [← h]
  rcases eq_unended_or_ended buffer with hb | ⟨b, r, hb, rfl⟩
  · rw [readLine_unended hb]
    split
    · rename_i hl
      exact ⟨hl, le_rfl, by simpa using hb⟩
    · exact ⟨rfl, hb, by omega⟩
  · rw [readLine_ended hb]
    split
    · rename_i hl
      exact ⟨hl, by simp, by simpa using hb⟩
    · exact ⟨b, hb, by omega, rfl, rfl⟩

theorem append_newline_inj {b c r s : Bytes} (hb : newline ∉ b) (hc : newline ∉ c)
    (h : b ++ newline :: r = c ++ newline :: s) : b = c ∧ r = s := by
  have hl := readLine_ended hb r (max b.length c.length)
  rw [h, readLine_ended hc s, if_neg (by omega), if_neg (by omega)] at hl
  simp only [Attempt.line.injEq, List.append_cancel_right_eq] at hl
  exact ⟨hl.1.symm, hl.2.symm⟩

theorem IsLines.unique {s : Bytes} {ls ms : List Bytes} (h : IsLines s ls) (h' : IsLines s ms) :
    ls = ms := by
  induction h generalizing ms with
  | none =>
    generalize hs : ([] : Bytes) = s at h'
    cases h' with
    | none => rfl
    | unended hne hb => exact absurd hs.symm hne
    | ended hb hr => simp at hs
  | @unended b hne hb =>
    cases h' with
    | none => exact absurd rfl hne
    | unended hne' hc => rfl
    | ended hc hr => simp at hb
  | @ended b r ls hb hr ih =>
    generalize hs : b ++ newline :: r = s at h'
    cases h' with
    | none => simp at hs
    | unended hne hc => simp [← hs] at hc
    | ended hc hr' =>
      obtain ⟨rfl, rfl⟩ := append_newline_inj hb hc hs
      rw [ih hr']

theorem Reads.isLines {limit : Nat} {pending buffer : Bytes} {ls : List Bytes}
    (h : Reads limit pending buffer ls) (hp : newline ∉ pending) :
    IsLines (pending ++ buffer) ls := by
  induction h with
  | line hr hl ih =>
    obtain ⟨b, hb, -, rfl, rfl⟩ := tells_of_readLine hr
    rw [← List.append_assoc, ← List.append_assoc]
    exact .ended (by simp [hp, hb]) (ih (by simp))
  | overrun hr hl ih =>
    obtain ⟨-, -, hb⟩ := tells_of_readLine hr
    rw [List.append_assoc, List.take_append_drop] at ih
    apply ih
    intro hm
    rcases List.mem_append.mp hm with hm | hm
    · exact hp hm
    · exact hb hm
  | nothing hr =>
    obtain ⟨rfl, -⟩ := tells_of_readLine hr
    exact .none
  | rest hr hne =>
    obtain ⟨rfl, hb, -⟩ := tells_of_readLine hr
    exact .unended hne (by simp [hp, hb])

/-- Every attempt but the last takes at least one byte, so the fuel outlasts the buffer and the loop
comes to its end. -/
theorem reads_linesFrom {limit fuel : Nat} {pending buffer : Bytes} (h : buffer.length < fuel) :
    Reads limit pending buffer (linesFrom limit fuel pending buffer) := by
  induction fuel generalizing pending buffer with
  | zero => omega
  | succ fuel ih =>
    cases hr : readLine limit buffer with
    | line l r =>
      obtain ⟨b, -, -, -, rfl⟩ := tells_of_readLine hr
      simp only [linesFrom, hr]
      exact .line hr (ih (by simp at h; omega))
    | overrun n =>
      obtain ⟨hn, hle, -⟩ := tells_of_readLine hr
      simp only [linesFrom, hr]
      exact .overrun hr (ih (by rw [List.length_drop]; omega))
    | ended r =>
      simp only [linesFrom, hr]
      by_cases he : pending = [] ∧ r = []
      · obtain ⟨rfl, rfl⟩ := he
        exact .nothing hr
      · have hne : pending ++ r ≠ [] := by simpa using he
        rw [if_neg (by simpa using he)]
        exact .rest hr hne

theorem reads_lines (limit : Nat) (stream : Bytes) : Reads limit [] stream (lines limit stream) :=
  reads_linesFrom (Nat.lt_succ_self _)

theorem isLines_lines (limit : Nat) (stream : Bytes) : IsLines stream (lines limit stream) :=
  (reads_lines limit stream).isLines (by simp)

theorem isLines_iff (limit : Nat) {stream : Bytes} {ls : List Bytes} :
    IsLines stream ls ↔ ls = lines limit stream := by
  constructor
  · intro h
    exact h.unique (isLines_lines limit stream)
  · rintro rfl
    exact isLines_lines limit stream

end ParserRelay.LineReader
