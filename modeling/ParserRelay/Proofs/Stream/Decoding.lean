import Mathlib.Data.List.Basic
import ParserRelay.Proofs.Run.ErrorStream
import ParserRelay.Text.Utf8.RoundTrip
/-!
# Reading a stream line by line

No byte below 0x80 continues a character. So a stream that is cut right behind a line end falls apart
into the same characters and the same replaced parts, however broken its lines are, and what is read
of the lines one by one is what is read of the stream at once.
-/
namespace ParserRelay.Text

variable {low high x : UInt8} {b a r : Bytes}

theorem utf8Continue_cut (hlow : 0x80 ≤ low) (hx : x < 0x80) (bits taken n : ℕ) (a r : Bytes) :
    utf8Continue low high bits taken n (a ++ x :: r) = utf8Continue low high bits taken n a := by
  have hstop : ¬ low ≤ x := UInt8.not_le.mpr (UInt8.lt_of_lt_of_le hx hlow)
  induction a generalizing low high bits taken n with
  | nil => cases n <;> simp [utf8Continue, hstop]
  | cons y a ih =>
    cases n with
    | zero => rfl
    | succ n =>
      rw [List.cons_append, utf8Continue, utf8Continue,
        ih (by decide) (64 * bits + y.toNat % 64) (taken + 1) n (UInt8.not_le.mpr hx)]

theorem utf8Continue_taken_le (low high : UInt8) (bits taken n : ℕ) (a : Bytes) :
    (utf8Continue low high bits taken n a).2 ≤ taken + a.length := by
  induction a generalizing low high bits taken n with
  | nil => cases n <;> simp [utf8Continue]
  | cons y a ih =>
    cases n with
    | zero => exact Nat.le_add_right _ _
    | succ n =>
      rw [utf8Continue, List.length_cons]
      split
      · have hrest := ih 0x80 0xBF (64 * bits + y.toNat % 64) (taken + 1) n
        omega
      · exact Nat.le_add_right _ _

theorem utf8First_cut (hx : x < 0x80) (y : UInt8) (a r : Bytes) :
    utf8First y (a ++ x :: r) = utf8First y a := by
  unfold utf8First
  split
  · rfl
  · cases hlead : utf8Lead? y with
    | none => rfl
    | some lead =>
      have hlow : 0x80 ≤ lead.low := UInt8.le_iff_toNat_le.mpr (utf8Lead?_eq_some hlead).1
      exact utf8Continue_cut hlow hx lead.bits 0 lead.rest a r

theorem utf8First_taken_le (y : UInt8) (a : Bytes) : (utf8First y a).2 ≤ a.length := by
  unfold utf8First
  split
  · exact Nat.zero_le _
  · split
    · exact Nat.zero_le _
    · rename_i lead _
      have htaken := utf8Continue_taken_le lead.low lead.high lead.bits 0 lead.rest a
      rwa [Nat.zero_add] at htaken

theorem ofUtf8Skip_cut (hx : x < 0x80) (r : Bytes) {n : ℕ} (hn : n ≤ a.length) :
    ofUtf8Skip n (a ++ x :: r) = ofUtf8Skip n a ++ ofUtf8 (x :: r) := by
  induction a generalizing n with
  | nil =>
    obtain rfl : n = 0 := Nat.le_zero.mp hn
    rfl
  | cons y a ih =>
    cases n with
    | succ n => exact ih (Nat.le_of_succ_le_succ hn)
    | zero =>
      have hrest := ih (utf8First_taken_le y a)
      rw [List.cons_append, ofUtf8Skip, utf8First_cut hx, ofUtf8Skip]
      exact congrArg (_ :: ·) hrest

/-- Before a byte of ASCII a stream can be cut, and what is broken before it stays broken alike. -/
theorem ofUtf8_cut (hx : x < 0x80) (a r : Bytes) :
    ofUtf8 (a ++ x :: r) = ofUtf8 a ++ ofUtf8 (x :: r) :=
  ofUtf8Skip_cut hx r (Nat.zero_le _)

theorem ofUtf8_newline (r : Bytes) :
    ofUtf8 (LineReader.newline :: r) = '\n' :: ofUtf8 r := rfl

theorem ofUtf8_line (b r : Bytes) : ofUtf8 (b ++ LineReader.newline :: r) =
    ofUtf8 (b ++ [LineReader.newline]) ++ ofUtf8 r := by
  have hend : LineReader.newline < 0x80 := by decide
  rw [ofUtf8_cut hend b r, ofUtf8_cut hend b [], ofUtf8_newline, ofUtf8_newline, List.append_assoc]
  rfl

theorem ofUtf8_lines {ls : List Bytes} (h : LineReader.IsLines b ls) :
    (ls.map ofUtf8).flatten = ofUtf8 b := by
  induction h with
  | none => rfl
  | unended _ _ => simp
  | ended _ _ ih => rw [List.map_cons, List.flatten_cons, ih, ← ofUtf8_line]

end ParserRelay.Text

namespace ParserRelay.Run
open LineReader (IsLines)

variable {limit : Int} {logger : WideText} {stderr : Bytes} {ls : List Bytes}

theorem chatterText_hear (h : IsLines stderr ls) (hls : ∀ l ∈ ls, IsChatter l) :
    (hear limit logger stderr).1.chatterText = .ofText (Text.ofUtf8 stderr) := by
  obtain rfl := (LineReader.isLines_iff limit.toNat).mp h
  have hkept : (LineReader.lines limit.toNat stderr).filter
      (fun l => (Interpreter.message? (chunk l)).isNone) = LineReader.lines limit.toNat stderr := by
    apply List.filter_eq_self.mpr
    intro l hl
    rw [hls l hl]
    rfl
  rw [Interpreter.chatterText, hear_eq, ← Text.ofUtf8_lines h]
  simp only [hkept, WideText.ofText, List.map_flatten, List.map_map]
  rfl

/-- The lines of a stream, each read by itself, make up the text of the stream. So an error stream of
nothing but chatter is given back as the output stream is, whatever the limit. -/
theorem chatter_read_as_output :
    (∀ b ls, IsLines b ls → (ls.map Text.ofUtf8).flatten = Text.ofUtf8 b) ∧
    ∀ files limit job s out, (run files limit job s).result = .ok out →
      (∀ ls, IsLines s.stderr ls → ∀ l ∈ ls, IsChatter l) →
      out.stderr = .ofText (Text.ofUtf8 s.stderr) ∧
      ∀ files' limit' job' s' out', s'.stdout = s.stderr →
        (run files' limit' job' s').result = .ok out' → out.stderr = .ofText out'.stdout := by
  refine ⟨fun b ls h => Text.ofUtf8_lines h, fun files limit job s out hout hchatter => ?_⟩
  have hlines := LineReader.isLines_lines limit.toNat s.stderr
  have hstderr : out.stderr = .ofText (Text.ofUtf8 s.stderr) := by
    rw [outcome_of_run hout]
    exact chatterText_hear hlines (hchatter _ hlines)
  refine ⟨hstderr, fun files' limit' job' s' out' hsame hout' => ?_⟩
  rw [hstderr, ← hsame, outcome_of_run hout']
  rfl

/-- Characters of two, three and four bytes, each broken off: at line ends and at the end. -/
def brokenText : Bytes := [0x61, 0xE2, 0x82, 10, 0xF0, 0x9F, 0x98, 10, 0xC3]

def brokenLines : List Bytes := [[0x61, 0xE2, 0x82, 10], [0xF0, 0x9F, 0x98, 10], [0xC3]]

def brokenScript : Script := ⟨brokenText, brokenText, 1, none, none, false, false⟩

theorem isLines_brokenText : IsLines brokenText brokenLines := by
  refine .ended (b := [0x61, 0xE2, 0x82]) (by decide) (.ended (b := [0xF0, 0x9F, 0x98]) (by decide) ?_)
  exact .unended (by decide) (by decide)

theorem broken_chatter_read_as_output : ∃ out,
    (run .empty 2 pipedJob brokenScript).result = .ok out ∧
    out.stderr = .ofText out.stdout ∧ out.stdout = "a\uFFFD\n\uFFFD\n\uFFFD".toList := by
  have hr : pipedJob.request.render = .ok "\x7b\"mode\":\"CREATE\"\x7d".toList := by rfl
  have hout : (run .empty 2 pipedJob brokenScript).result = .ok _ :=
    result_of_exit (by decide) hr rfl rfl rfl rfl
  have hnone : ∀ l ∈ brokenLines, (Interpreter.message? (chunk l)).isNone := by decide +kernel
  have hchatter : ∀ l ∈ brokenLines, IsChatter l :=
    fun l hl => Option.isNone_iff_eq_none.mp (hnone l hl)
  obtain ⟨-, hrun⟩ := chatter_read_as_output
  obtain ⟨-, hsame⟩ := hrun _ _ _ _ _ hout fun ls hls => hls.unique isLines_brokenText ▸ hchatter
  exact ⟨_, hout, hsame _ _ _ _ _ rfl hout, by decide +kernel⟩

end ParserRelay.Run
