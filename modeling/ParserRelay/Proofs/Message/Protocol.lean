import ParserRelay.Proofs.FileSystem.Frame
import ParserRelay.Proofs.Message.Record
import ParserRelay.Proofs.Message.Sorting
import ParserRelay.Proofs.Run.NormalEnd
import ParserRelay.Proofs.Stream.Lines
import ParserRelay.Proofs.Text.Trim
/-!
# The line protocol

A sender writes messages and chatter one to a line, each line with either kind of end. Whatever the
limit of the streams is, a run that ends normally gives back the messages and the chatter as they
were sent.
-/
namespace ParserRelay.Text

theorem ofNat_ne_newline {n : ℕ} (h : n < 256) (hn : n ≠ 10) :
    LineReader.newline ≠ UInt8.ofNat n := by
  intro he
  have hb := congrArg UInt8.toNat he
  rw [toNat_byte h] at hb
  exact hn hb.symm

theorem eq_newline_of_mem_encode {c : Char} (h : LineReader.newline ∈ String.utf8EncodeChar c) :
    c = '\n' := by
  obtain ⟨v, hc⟩ : ∃ v, v = c.val.toNat := ⟨_, rfl⟩
  rw [String.utf8EncodeChar, ← hc] at h
  split at h
  · rename_i hv
    have hm : LineReader.newline = UInt8.ofNat v := List.mem_singleton.mp h
    have hv10 : v = 10 := by
      by_contra hne
      exact ofNat_ne_newline (by omega) hne hm
    have ht : c.toNat = 10 := by
      rw [← hv10, hc]
      rfl
    rw [← Char.ofNat_toNat c, ht]
  · exfalso
    repeat' split at h
    all_goals simp only [List.mem_cons, List.not_mem_nil, or_false] at h
    · rcases h with h | h <;> exact ofNat_ne_newline (by omega) (by omega) h
    · rcases h with h | h | h <;> exact ofNat_ne_newline (by omega) (by omega) h
    · rcases h with h | h | h | h <;> exact ofNat_ne_newline (by omega) (by omega) h

theorem newline_not_mem_toUtf8 {t : Text} (h : '\n' ∉ t) : LineReader.newline ∉ toUtf8 t := by
  intro hm
  obtain ⟨c, hc, hn⟩ := List.mem_flatMap.mp hm
  apply h
  rw [← eq_newline_of_mem_encode hn]
  exact hc

theorem toUtf8_append (t u : Text) : toUtf8 (t ++ u) = toUtf8 t ++ toUtf8 u := List.flatMap_append

theorem isLines_toUtf8 {ts : List Text} (h : ∀ t ∈ ts, ∃ b, '\n' ∉ b ∧ t = b ++ ['\n']) :
    LineReader.IsLines (toUtf8 ts.flatten) (ts.map toUtf8) := by
  induction ts with
  | nil => exact .none
  | cons t ts ih =>
    obtain ⟨b, hb, rfl⟩ := h t (by simp)
    have hn : toUtf8 ['\n'] = [LineReader.newline] := by decide
    rw [List.flatten_cons, toUtf8_append, List.map_cons, toUtf8_append, hn, List.append_assoc]
    refine .ended (newline_not_mem_toUtf8 hb) (ih ?_)
    intro u hu
    apply h
    exact List.mem_cons_of_mem _ hu

end ParserRelay.Text

namespace ParserRelay.Protocol
open WideText (ofText)

inductive Item
  | message (level : Level) (text : Text)
  | chatter (text : Text)

/-- What may stand for an item on a line. -/
inductive Item.Writes : Item → Text → Prop
  | message {l : Level} {t w : Text} : Message.RecordForm l t w → '\n' ∉ w → Writes (.message l t) w
  | chatter {t : Text} : '\n' ∉ t → Interpreter.message? (ofText t) = none → Writes (.chatter t) t

inductive LineEnd
  | newline
  | returnNewline

def LineEnd.text : LineEnd → Text
  | .newline => ['\n']
  | .returnNewline => ['\r', '\n']

structure SentLine where
  item : Item
  form : Text
  ending : LineEnd
  writes : item.Writes form

namespace SentLine

def text (l : SentLine) : Text := l.form ++ l.ending.text

def message? (l : SentLine) : Option Message := match l.item with
  | .message level t => some ⟨level, ofText t⟩
  | .chatter _ => none

end SentLine

def encoded (ls : List SentLine) : Bytes := Text.toUtf8 (ls.flatMap SentLine.text)

theorem LineEnd.blank (e : LineEnd) : ∀ c ∈ ofText e.text, Text.isBlank c := by
  cases e <;> decide

theorem Item.Writes.no_newline {i : Item} {w : Text} (h : i.Writes w) : '\n' ∉ w := by
  cases h with
  | message _ hn => exact hn
  | chatter hn _ => exact hn

theorem SentLine.ends (l : SentLine) : ∃ b, '\n' ∉ b ∧ l.text = b ++ ['\n'] := by
  cases he : l.ending with
  | newline => exact ⟨l.form, l.writes.no_newline, by simp [text, he, LineEnd.text]⟩
  | returnNewline =>
    exact ⟨l.form ++ ['\r'], by simp [l.writes.no_newline], by simp [text, he, LineEnd.text]⟩

theorem message?_text (l : SentLine) : Interpreter.message? (ofText l.text) = l.message? := by
  have htrim : Interpreter.message? (ofText l.text) = Interpreter.message? (ofText l.form) := by
    rw [SentLine.text, WideText.ofText_append, Interpreter.message?,
      Text.trim_append_blank _ l.ending.blank]
    rfl
  obtain ⟨item, form, ending, writes⟩ := l
  rw [htrim]
  cases writes with
  | @message level t w hf hn =>
    obtain ⟨r, hr⟩ := hf.enclosed
    have hw : Text.trim (ofText form) = ofText form := by
      rw [hr, WideText.ofText_cons, WideText.ofText_append]
      exact Text.trim_enclosed (by decide) (by decide) _
    rw [Interpreter.message?, hw, Message.parse?_of_form hf]
    rfl
  | chatter hn hm => exact hm

theorem hear_encoded (limit : Int) (logger : WideText) (ls : List SentLine) :
    Run.hear limit logger (encoded ls) =
      Interpreter.start.feedAll logger (ls.map fun l => ofText l.text) := by
  have hl : LineReader.IsLines (encoded ls) ((ls.map SentLine.text).map Text.toUtf8) := by
    apply Text.isLines_toUtf8
    intro t ht
    obtain ⟨l, -, rfl⟩ := List.mem_map.mp ht
    exact l.ends
  rw [Run.hear, ← (LineReader.isLines_iff limit.toNat).mp hl]
  simp only [List.map_map, Function.comp_def, Text.ofUtf8_toUtf8]

theorem heard_encoded (limit : Int) (logger : WideText) (ls : List SentLine) :
    (Run.hear limit logger (encoded ls)).1 = ⟨ls.filterMap SentLine.message?,
      (ls.filter fun l => l.message?.isNone).map fun l => ofText l.text,
      (ls.filterMap SentLine.message?).any (·.level = .error)⟩ := by
  have hm : (Interpreter.message? ∘ fun l => ofText l.text) = SentLine.message? :=
    funext message?_text
  rw [hear_encoded, Interpreter.feedAll_eq]
  simp only [Interpreter.start, List.nil_append, Bool.false_or, List.filterMap_map, hm,
    List.filter_map, Function.comp_def, message?_text]

theorem any_error_iff (ls : List SentLine) :
    (ls.filterMap SentLine.message?).any (·.level = .error) = true ↔
      ∃ l ∈ ls, ∃ t, l.item = .message .error t := by
  rw [List.any_eq_true]
  constructor
  · rintro ⟨m, hm, he⟩
    obtain ⟨l, hl, hlm⟩ := List.mem_filterMap.mp hm
    refine ⟨l, hl, ?_⟩
    cases hi : l.item with
    | message level t =>
      simp only [SentLine.message?, hi, Option.some.injEq] at hlm
      rw [← hlm, decide_eq_true_eq] at he
      obtain rfl : level = .error := he
      exact ⟨t, rfl⟩
    | chatter t => simp [SentLine.message?, hi] at hlm
  · rintro ⟨l, hl, t, hi⟩
    have hm : l.message? = some ⟨.error, ofText t⟩ := by
      rw [SentLine.message?, hi]
    exact ⟨⟨.error, ofText t⟩, List.mem_filterMap.mpr ⟨l, hl, hm⟩, by simp⟩

theorem writes_written (l : Level) (t : Text) :
    (Item.message l t).Writes (Message.written l t) := by
  refine .message (Message.recordForm_written l t) ?_
  have hs : ∀ u : Text, '\n' ∉ Json.stringText u := fun u hm =>
    absurd (Json.visible_stringText u _ hm) (by decide)
  simp [Message.written, hs]

/-- A run that ends normally gives back what was sent on its error stream: the messages in their
order, the chatter lines with their own ends, and whether there was an error among the messages. -/
theorem run_gives_back_sent_lines {files : FileSystem} {limit : Int} {job : Job} {s : Script}
    {ls : List SentLine} {out : Outcome} (hs : s.stderr = encoded ls)
    (h : (Run.run files limit job s).result = .ok out) :
    out.messages = ls.filterMap SentLine.message? ∧
      out.stderr = ofText ((ls.filter fun l => l.message?.isNone).flatMap SentLine.text) ∧
      (out.hasErrors = true ↔ ∃ l ∈ ls, ∃ t, l.item = .message .error t) := by
  have ho := Run.outcome_of_run h
  rw [hs, heard_encoded] at ho
  rw [ho]
  refine ⟨rfl, ?_, any_error_iff ls⟩
  show (List.map _ _).flatten = _
  rw [ofText, List.map_flatMap, List.flatMap_def]
  rfl

def sampleLines : List SentLine := [
  ⟨.message .error "say \"no\"\n\\ ü".toList, _, .returnNewline, writes_written _ _⟩,
  ⟨.chatter " [1, 2] \t".toList, _, .returnNewline, .chatter (by decide) (by decide +kernel)⟩,
  ⟨.message .info [], _, .newline, writes_written _ _⟩]

def sampleJob : Job :=
  ⟨.ofString "parse --all", .ofString "/", ⟨.parse, []⟩, none, Log.parser, .whole 0, .whole 0⟩

def sampleScript : Script := ⟨[], encoded sampleLines, 3, none, none, false, false⟩

theorem run_gives_back_sample :
    ∃ out, (Run.run .empty 7 sampleJob sampleScript).result = .ok out ∧
    out.messages = [⟨.error, .ofString "say \"no\"\n\\ ü"⟩, ⟨.info, []⟩] ∧
    out.stderr = .ofString " [1, 2] \t\r\n" ∧ out.hasErrors = true := by
  have hj : sampleJob.request.render = .ok "\x7b\"mode\":\"PARSE\"\x7d".toList := by rfl
  have hr : (Run.run .empty 7 sampleJob sampleScript).result = .ok _ :=
    Run.result_of_exit (by decide) hj rfl rfl rfl rfl
  have hs : sampleScript.stderr = encoded sampleLines := rfl
  obtain ⟨hm, hc, he⟩ := run_gives_back_sent_lines hs hr
  exact ⟨_, hr, hm, hc, he.mpr ⟨_, List.mem_cons_self, _, rfl⟩⟩

end ParserRelay.Protocol
