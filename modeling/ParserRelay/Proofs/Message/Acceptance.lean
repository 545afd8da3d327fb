import ParserRelay.Message.Basic
import ParserRelay.Proofs.Json.Bounds
import ParserRelay.Proofs.Json.Printing
import ParserRelay.Proofs.Validation.Acceptance
/-!
# Which texts are messages

A text is a message exactly if the grammar derives an object whose last level is the name of one and
whose last text is a string. The bound on numbers here is one on the sign and the whole part, of
integers and of other numbers alike: a record with a longer number is no message, whatever else it
holds.
-/
namespace ParserRelay.Message
open WideText (ofText)
open Checked (both_eq_ok_iff required_eq_ok_iff string_eq_ok_iff)
open Json (Dialect Derives Document records NumbersWithin NestsWithin NumberForm NumberText Members)

variable {t : WideText} {m : Message}

section Fields

theorem checkLevel_eq_ok_iff {v : Json} {l : Level} :
    checkLevel v = .ok l ↔ v = .str (ofText l.name) := by
  constructor
  · intro h
    unfold checkLevel Checked.choice at h
    split at h
    · split at h
      · rename_i w hw
        split at h
        · rename_i a ha
          cases h
          rw [WideText.eq_ofText_of_toText? hw, Level.name_of_ofName? ha]
        · cases h
      · cases h
    · cases h
  · rintro rfl
    simp [checkLevel, Checked.choice, WideText.toText?_ofText, Level.ofName?_name]

theorem ofJson_eq_ok_iff {v : Json} : ofJson v = .ok m ↔ ∃ members, v = .obj members ∧
    Members.get? (ofText levelKey) members = some (.str (ofText m.level.name)) ∧
    Members.get? (ofText textKey) members = some (.str m.text) := by
  cases v with
  | obj members =>
    simp only [ofJson, both_eq_ok_iff, required_eq_ok_iff, checkLevel_eq_ok_iff, string_eq_ok_iff]
    constructor
    · rintro ⟨l, s, ⟨_, hl, rfl⟩, ⟨_, hs, rfl⟩, rfl⟩
      exact ⟨members, rfl, hl, hs⟩
    · rintro ⟨_, hm, hl, hs⟩
      cases hm
      exact ⟨m.level, m.text, ⟨_, hl, rfl⟩, ⟨_, hs, rfl⟩, rfl⟩
  | _ => simp [ofJson]

end Fields

theorem parse?_eq_some_iff : parse? t = some m ↔ ∃ members, Document records t (.obj members) ∧
    Members.get? (ofText levelKey) members = some (.str (ofText m.level.name)) ∧
    Members.get? (ofText textKey) members = some (.str m.text) := by
  constructor
  · intro h
    unfold parse? at h
    split at h
    · rename_i v hv
      cases hmessage : ofJson v with
      | error issues =>
        rw [hmessage] at h
        cases h
      | ok a =>
        rw [hmessage] at h
        cases h
        obtain ⟨members, rfl, hfields⟩ := ofJson_eq_ok_iff.mp hmessage
        exact ⟨members, Json.document_of_read hv, hfields⟩
    · cases h
  · rintro ⟨members, hdocument, hfields⟩
    rw [parse?, Json.read_of_document hdocument]
    simp only [ofJson_eq_ok_iff.mpr ⟨members, rfl, hfields⟩]
    rfl

/-- Within the bounds, the messages are the documents of the grammar that have the two members, and a
message has the values that were written last for them. -/
theorem parse?_iff_derives (hn : NumbersWithin (.wholeParts 4300) t) (hd : NestsWithin 200 t)
    (m : Message) : parse? t = some m ↔ ∃ members, Derives false t (.obj members) ∧
      Members.get? (ofText levelKey) members = some (.str (ofText m.level.name)) ∧
      Members.get? (ofText textKey) members = some (.str m.text) := by
  have hwithin : Json.Within records t := ⟨hn, 200, hd, Nat.le_refl _, rfl⟩
  have hiff (members : Members) : Derives false t (.obj members) ↔ Document records t (.obj members) :=
    Json.derives_iff hwithin
  simp only [parse?_eq_some_iff, hiff]

section Samples

variable {n : NumberText} {x : Text}

/-- A record with a number before its level and its text. -/
def numbered (x : Text) : WideText := ofText "\x7b\"n\":".toList ++
  (ofText x ++ ofText ",\"level\":\"INFO\",\"message\":\"\"\x7d".toList)

def numberedMembers (n : NumberText) : Members := [(ofText ['n'], n.toJson),
  (ofText levelKey, .str (ofText Level.info.name)), (ofText textKey, .str [])]

theorem numbered_within (hn : NumberForm n x) {rule : Json.LengthRule} (hr : 100 ≤ rule.limit)
    (hfit : n.exceeds rule = false) :
    NumbersWithin rule (numbered x) ∧ NestsWithin 200 (numbered x) := by
  constructor
  · apply Json.numbersWithin_of_one (by decide) hn _ _ hfit
    · exact Json.delimited_append (w := []) (List.forall_mem_nil _) (by decide) _
    · exact Nat.le_trans (by decide) hr
  · apply Json.nestsWithin_of_countP
    have hquiet : (ofText x).countP (· ∈ ofText Json.openings) = 0 := by
      apply List.countP_eq_zero.mpr
      intro c hc
      simpa using (Json.quiet_number hn c hc).2.1
    rw [numbered, List.countP_append, List.countP_append, hquiet]
    decide

theorem numbered_derives (hn : NumberForm n x) :
    Derives false (numbered x) (.obj (numberedMembers n)) := by
  let d : Dialect := ⟨false, 1, .wholeParts (n.whole.length + n.negative.toNat)⟩
  let ps : List Json.PrintedMember := [(['n'], x, n.toJson),
    (levelKey, Json.stringText Level.info.name, .str (ofText Level.info.name)),
    (textKey, Json.stringText [], .str [])]
  have hvalues : ∀ p ∈ ps, Json.Value d 0 (ofText p.2.1) p.2.2 := by
    simp only [ps, List.forall_mem_cons]
    exact ⟨.number hn (Json.exceeds_of_length (Nat.le_refl _)), Json.value_stringText d 0 _,
      Json.value_stringText d 0 [], List.forall_mem_nil _⟩
  have hobject := Json.value_of_members hvalues
  have htext : ofText ('\x7b' :: (Text.joinWith [','] (ps.map Json.PrintedMember.text) ++ ['\x7d'])) =
      numbered x := by
    simp only [ps, List.map_cons, List.map_nil, Text.joinWith, Json.PrintedMember.text,
      WideText.ofText_append, WideText.ofText_cons, List.append_assoc, List.cons_append]
    rfl
  rw [htext] at hobject
  exact ⟨1, d.length, Json.document_of_value hobject⟩

theorem numbered_refused (hn : NumberForm n x) (hlong : n.exceeds records.length = true) :
    parse? (numbered x) = none := by
  have hkey : Json.StringForm records (ofText ['n']) (ofText ['n']) :=
    Json.stringForm_of_body records (.plain (by decide) (by decide) (by decide) .nil)
  have hrest := Json.delimited_append (w := []) (List.forall_mem_nil _) (by decide : ',' ∈ Json.delimiters)
    (ofText "\"level\":\"INFO\",\"message\":\"\"\x7d".toList)
  have hread := Json.read_of_long_member hkey hn hlong hrest (by decide)
  have htext : numbered x = .char '\x7b' :: .char '"' :: (ofText ['n'] ++ .char '"' :: .char ':' ::
      (ofText x ++ ([] ++ .char ',' :: ofText "\"level\":\"INFO\",\"message\":\"\"\x7d".toList))) := rfl
  rw [parse?, htext, hread]

theorem numbered_iff_derives : NumbersWithin (.wholeParts 4300) (numbered (Json.ones 2)) ∧
    NestsWithin 200 (numbered (Json.ones 2)) ∧ parse? (numbered (Json.ones 2)) = some ⟨.info, []⟩ := by
  have hform := Json.numberForm_ones (by decide : 0 < 2)
  obtain ⟨hn, hd⟩ := @numbered_within _ _ hform (.wholeParts 4300) (by decide) rfl
  exact ⟨hn, hd, (parse?_iff_derives hn hd ⟨.info, []⟩).mpr ⟨_, numbered_derives hform, rfl, rfl⟩⟩

/-- The text is a message by the grammar, with integers that an integer may have, and is none. -/
structure Unheard (t : WideText) : Prop where
  integers : NumbersWithin (.integers 4300) t
  nesting : NestsWithin 200 t
  derives : ∃ members, Derives false t (.obj members) ∧
    Members.get? (ofText levelKey) members = some (.str (ofText Level.info.name)) ∧
    Members.get? (ofText textKey) members = some (.str [])
  none : parse? t = none

theorem unheard_of_long (hn : NumberForm n x) (hfit : n.exceeds (.integers 4300) = false)
    (hlong : n.exceeds records.length = true) : Unheard (numbered x) := by
  obtain ⟨hnumbers, hnesting⟩ := @numbered_within _ _ hn (.integers 4300) (by decide) hfit
  exact ⟨hnumbers, hnesting, ⟨_, numbered_derives hn, rfl, rfl⟩, numbered_refused hn hlong⟩

/-- A sign counts as a digit, and the digits before a point count as those of an integer. -/
theorem long_numbers_unheard : Unheard (numbered ('-' :: Json.ones 4300)) ∧
    Unheard (numbered (Json.ones 4301 ++ '.' :: Json.ones 1)) := by
  have hlength (k : ℕ) : (Json.ones k).length = k := List.length_replicate
  constructor
  · have hform := @NumberForm.mk true _ _ _ _ _ (Json.wholePart_ones (by decide : 0 < 4300)) .none .none
    have hunheard := unheard_of_long hform
      (by simp [NumberText.exceeds, hlength]) (by simp [NumberText.exceeds, records, hlength])
    simpa using hunheard
  · have hform := @NumberForm.mk false _ _ _ _ _ (Json.wholePart_ones (by decide : 0 < 4301))
      (.some (Json.digits_ones (by decide : 0 < 1))) .none
    have hunheard := unheard_of_long hform rfl (by simp [NumberText.exceeds, records, hlength])
    simpa using hunheard

end Samples

end ParserRelay.Message
