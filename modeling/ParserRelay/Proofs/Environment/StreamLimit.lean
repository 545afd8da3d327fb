import ParserRelay.Environment.Basic
/-!
# The limit of the streams

Where no limit is given one setting decides: an entry of the mapping if the mapping alone counts, and
a variable of the process otherwise. Whatever stands there, the limit is positive.
-/
namespace ParserRelay.Environment
open WideText (ofText)

variable {mapping : Entries (Option WideText)} {setting : Option WideText} {n : Int}

/-- A mapping alone counts if its own entry says so, with any space around it and in any case. -/
def Forcing (mapping : Entries (Option WideText)) : Prop :=
  ∃ t, mapping.get? forceKey = some (some (ofText t)) ∧
    Text.asciiLower (Text.trim t) = "true".toList

theorem forces_iff : forces mapping = true ↔ Forcing mapping := by
  unfold forces
  constructor
  · intro h
    split at h
    · rename_i t ht
      obtain ⟨value, hvalue, ht⟩ := Option.bind_eq_some_iff.mp ht
      obtain rfl := WideText.eq_ofText_of_toText? ht
      exact ⟨t, Option.join_eq_some_iff.mp hvalue, of_decide_eq_true h⟩
    · cases h
  · rintro ⟨t, ht, htrue⟩
    rw [ht]
    simp only [Option.join_some, Option.bind_some, WideText.toText?_ofText, htrue, decide_true]

instance : Decidable (Forcing mapping) := decidable_of_iff _ forces_iff

def limitOf (setting : Option WideText) : Int :=
  match setting.bind integer? with
  | some n => if 0 < n then n else defaultLimit
  | none => defaultLimit

theorem limitOf_none : limitOf none = defaultLimit := rfl

theorem one_le_limitOf (setting : Option WideText) : 1 ≤ limitOf setting := by
  have hdefault : 1 ≤ defaultLimit := by decide
  unfold limitOf
  split
  · split
    · assumption
    · exact hdefault
  · exact hdefault

/-- The setting that decides on the limit. An entry without a value is as good as none. -/
def limitSetting? (mapping : Entries (Option WideText)) (process : Entries WideText) :
    Option WideText :=
  if Forcing mapping then (mapping.get? limitKey).join else process.get? limitKey

theorem get?_limitKey (env : Environment) :
    env.get? limitKey = limitSetting? env.mapping env.process := by
  have hkey : limitKey.systemForm = limitKey := WideText.systemForm_ofText _
  by_cases h : Forcing env.mapping
  · rw [get?, forced, if_pos (forces_iff.mpr h), limitSetting?, if_pos h]
  · rw [get?, forced, if_neg (fun hf => h (forces_iff.mp hf)), limitSetting?, if_neg h, hkey]

theorem streamLimit_eq (env : Environment) :
    env.streamLimit = limitOf (limitSetting? env.mapping env.process) := by
  rw [streamLimit, limitOf, get?_limitKey]
  cases (limitSetting? env.mapping env.process).bind integer? with
  | none => rfl
  | some n => rfl

theorem limitFor_eq (env : Environment) (given : Option Int) : env.limitFor given =
    if given.getD 0 = 0 then limitOf (limitSetting? env.mapping env.process) else given.getD 0 := by
  rw [← streamLimit_eq]
  cases given with
  | none => rfl
  | some n => rfl

end ParserRelay.Environment
