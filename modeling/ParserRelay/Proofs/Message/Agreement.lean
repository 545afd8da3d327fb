import ParserRelay.Proofs.Json.Dialects
import ParserRelay.Proofs.Message.Acceptance
import ParserRelay.Proofs.Result.Reading
/-!
# Messages as results

Messages on the error stream and results on the output are read in two dialects of one format. A text
that is a message is a result too, and the result holds the level and the text of the message.
-/
namespace ParserRelay.Message
open WideText (ofText)
open Json (Members)

variable {t : WideText} {m : Message} {room : ℕ}

/-- A message is read as a result as well, as one and the same object, wherever there is room for the
containers of a message. No bound on the numbers of the text is asked for: that of records is the
tighter one. -/
theorem result_of_message (h : parse? t = some m) (hroom : 200 < room) : ∃ members,
    Json.read Json.records t = .ok (.obj members) ∧ Result.parse t room = .ok members ∧
      Members.get? (ofText levelKey) members = some (.str (ofText m.level.name)) ∧
      Members.get? (ofText textKey) members = some (.str m.text) := by
  obtain ⟨members, hdocument, hlevel, htext⟩ := parse?_eq_some_iff.mp h
  have hresult := Result.parse_of_document
    (hdocument.widen (Json.records_stricter_documents hroom))
  exact ⟨members, Json.read_of_document hdocument, hresult, hlevel, htext⟩

def wordyText : WideText := ofText ("\x7b \"level\":\"ERROR\", \"message\":0,".toList ++
  "\"n\":[-1.50e+3,\x7b\x7d],\t\"message\" : \"\\ud83d\\ude00\\n\\u0041\"".toList ++
  ", \"level\":\"INFO\" \x7d".toList)

def wordyMessage : Message := ⟨.info, ofText [Char.ofNat 0x1F600, '\n', 'A']⟩

theorem result_of_wordyText : parse? wordyText = some wordyMessage ∧
    ∃ members, Result.parse wordyText = .ok members ∧
      Members.get? (ofText textKey) members =
        some (.str (ofText [Char.ofNat 0x1F600, '\n', 'A'])) := by
  have hmessage : parse? wordyText = some wordyMessage := by decide +kernel
  obtain ⟨members, -, hresult, -, htext⟩ := result_of_message hmessage (by decide : 200 < Result.usualRoom)
  exact ⟨hmessage, members, hresult, htext⟩

end ParserRelay.Message
