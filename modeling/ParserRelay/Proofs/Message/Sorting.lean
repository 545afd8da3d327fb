import Mathlib.Data.List.Basic
import ParserRelay.Message.Interpreter
/-!
# Sorting an error stream

What an interpreter has kept and reported after any list of chunks, said through the chunks alone.
One equation for a whole run carries all of it; the batch report of the collected messages is the
part of the log that the structured chunks made.
-/
namespace ParserRelay.Interpreter

def message? (chunk : WideText) : Option Message := Message.parse? (Text.trim chunk)

def recordOf (logger chunk : WideText) : LogRecord := match message? chunk with
  | some m => m.record logger
  | none => Log.debug logger (Text.trim chunk)

/-- One chunk goes to exactly one of two places. -/
inductive Places (i : Interpreter) (chunk : WideText) : Interpreter → Prop
  | message {m : Message} : message? chunk = some m →
      Places i chunk ⟨i.messages ++ [m], i.chatter, i.hasErrors || m.level = .error⟩
  | chatter : message? chunk = none →
      Places i chunk ⟨i.messages, i.chatter ++ [chunk], i.hasErrors⟩

def structured (chunks : List WideText) (log : Log) : Log :=
  ((chunks.zip log).filter fun e => (message? e.1).isSome).map (·.2)

structure Sorted (logger : WideText) (chunks : List WideText) (i : Interpreter) (log : Log) :
    Prop where
  messages : i.messages = chunks.filterMap message?
  chatterText : i.chatterText = (chunks.filter fun c => (message? c).isNone).flatten
  count : i.messages.length + i.chatter.length = chunks.length
  hasErrors : i.hasErrors = true ↔ ∃ m ∈ i.messages, m.level = .error
  records : log = chunks.map (recordOf logger)
  report : Message.report logger i.messages = ⟨i.hasErrors, structured chunks log⟩

/-- Nothing kept is lost or changed, and an error is not forgotten. -/
structure Continues (i j : Interpreter) : Prop where
  messages : i.messages <+: j.messages
  chatter : i.chatter <+: j.chatter
  hasErrors : i.hasErrors → j.hasErrors

variable (logger : WideText)

theorem feed_of_message (i : Interpreter) {chunk : WideText} {m : Message}
    (h : message? chunk = some m) : feed logger i chunk =
      ⟨⟨i.messages ++ [m], i.chatter, i.hasErrors || m.level = .error⟩, some m,
        [recordOf logger chunk]⟩ := by
  have hp : Message.parse? (Text.trim chunk) = some m := h
  simp [feed, hp, recordOf, h, Message.report]

theorem feed_of_chatter (i : Interpreter) {chunk : WideText} (h : message? chunk = none) :
    feed logger i chunk =
      ⟨⟨i.messages, i.chatter ++ [chunk], i.hasErrors⟩, none, [recordOf logger chunk]⟩ := by
  have hp : Message.parse? (Text.trim chunk) = none := h
  simp [feed, hp, recordOf, h]

theorem feed_places (i : Interpreter) (chunk : WideText) :
    Places i chunk (feed logger i chunk).next := by
  cases h : message? chunk with
  | none =>
    rw [feed_of_chatter logger i h]
    exact .chatter h
  | some m =>
    rw [feed_of_message logger i h]
    exact .message h

theorem feedAll_append (i : Interpreter) (s t : List WideText) :
    feedAll logger i (s ++ t) = ((feedAll logger (feedAll logger i s).1 t).1,
      (feedAll logger i s).2 ++ (feedAll logger (feedAll logger i s).1 t).2) := by
  induction s generalizing i with
  | nil => rfl
  | cons c s ih => simp [feedAll, ih]

theorem feedAll_eq (i : Interpreter) (chunks : List WideText) :
    feedAll logger i chunks = (⟨i.messages ++ chunks.filterMap message?,
      i.chatter ++ chunks.filter fun c => (message? c).isNone,
      i.hasErrors || (chunks.filterMap message?).any (·.level = .error)⟩,
      chunks.map (recordOf logger)) := by
  induction chunks generalizing i with
  | nil => simp [feedAll]
  | cons c r ih =>
    cases h : message? c with
    | none => simp [feedAll, feed_of_chatter logger i h, ih, h]
    | some m => simp [feedAll, feed_of_message logger i h, ih, h, Bool.or_assoc]

theorem structured_map_recordOf (chunks : List WideText) :
    structured chunks (chunks.map (recordOf logger)) =
      (chunks.filterMap message?).map (Message.record logger) := by
  induction chunks with
  | nil => rfl
  | cons c r ih =>
    rw [structured] at ih
    cases h : message? c with
    | none => simpa [structured, h] using ih
    | some m => simpa [structured, h, recordOf] using ih

theorem length_filterMap_add_filter (chunks : List WideText) :
    (chunks.filterMap message?).length + (chunks.filter fun c => (message? c).isNone).length =
      chunks.length := by
  induction chunks with
  | nil => rfl
  | cons c r ih =>
    cases h : message? c with
    | none => simp [h]; omega
    | some m => simp [h]; omega

theorem sorted_feedAll (chunks : List WideText) :
    Sorted logger chunks (start.feedAll logger chunks).1 (start.feedAll logger chunks).2 := by
  rw [feedAll_eq]
  constructor
  · rfl
  · rfl
  · exact length_filterMap_add_filter chunks
  · rw [start, Bool.false_or, List.nil_append, List.any_eq_true]
    simp only [decide_eq_true_eq]
  · rfl
  · rw [structured_map_recordOf]
    rfl

theorem continues_feedAll (i : Interpreter) (chunks : List WideText) :
    Continues i (feedAll logger i chunks).1 := by
  rw [feedAll_eq]
  constructor
  · exact List.prefix_append _ _
  · exact List.prefix_append _ _
  · intro h
    simp [h]

/-- After every part of a list of chunks the interpreter has sorted this part, every chunk has gone
to one of the two places, and what comes later only adds to what is there. -/
theorem feedAll_take_sorted (chunks : List WideText) (k : ℕ) :
    let now := start.feedAll logger (chunks.take k)
    let last := start.feedAll logger chunks
    Sorted logger (chunks.take k) now.1 now.2 ∧ now.1.Continues last.1 ∧ now.2 <+: last.2 ∧
      ∀ j : Fin chunks.length, Places (start.feedAll logger (chunks.take j)).1 chunks[j]
        (start.feedAll logger (chunks.take (j + 1))).1 := by
  have hk := feedAll_append logger start (chunks.take k) (chunks.drop k)
  rw [List.take_append_drop] at hk
  refine ⟨sorted_feedAll logger _, ?_, ?_, fun j => ?_⟩
  · rw [hk]
    exact continues_feedAll logger _ _
  · rw [hk]
    exact List.prefix_append _ _
  · rw [List.take_succ_eq_append_getElem j.isLt, feedAll_append]
    exact feed_places logger _ _

end ParserRelay.Interpreter
