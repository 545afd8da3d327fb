import ParserRelay.Proofs.Json.Bounds
import ParserRelay.Proofs.Request.RoundTrip
/-!
# What a result document is

A result is read exactly where the grammar derives an object, and any other text is refused with the
text itself, as long as no number and no nesting is beyond the reader. A number or a nesting that is
ends the reading with a failure of its own, which does not keep the text.
-/
namespace ParserRelay

def Failure.refused? : Failure → Option WideText
  | .emptyResult stdout => some stdout
  | .undecodable _ stdout => some stdout
  | .notAnObject _ stdout => some stdout
  | _ => none

namespace Result
open WideText (ofText)
open Json (Derives Document documents NumbersWithin NestsWithin Members ones)

variable {t : WideText} {room : ℕ} {members : Members} {e : Failure}

/-- The text is an object, or it is refused and kept. -/
def Kept (t : WideText) (r : Except Failure Members) : Prop :=
  (∃ members, r = .ok members) ∨ ∃ e, r = .error e ∧ e.refused? = some t

/-- How the reading of a result ends: with an object, with a refusal, or at a bound of the reader, and
then the text passes this bound. -/
inductive Ends (t : WideText) (room : ℕ) : Except Failure Members → Prop
  | object (members : Members) : Ends t room (.ok members)
  | refused {e : Failure} : e.refused? = some t → Ends t room (.error e)
  | numberTooLong {digits : ℕ} : (Json.Fault.Kind.tooLong 4300 digits).MetIn (documents room) t →
      Ends t room (.error (.numberTooLong 4300 digits))
  | tooDeep : Json.Fault.Kind.tooDeep.MetIn (documents room) t → Ends t room (.error .tooDeep)

theorem parse_ends (t : WideText) (room : ℕ) : Ends t room (parse t room) := by
  unfold parse
  split
  · exact .refused rfl
  · split
    · exact .object _
    · exact .refused rfl
    · rename_i limit digits left hread
      have hmet := Json.metIn_of_read hread
      obtain rfl : limit = 4300 := hmet.1
      exact .numberTooLong hmet
    · rename_i hread
      exact .tooDeep (Json.metIn_of_read hread)
    · exact .refused rfl

theorem Ends.kept {r : Except Failure Members} {limit : ℕ} (h : Ends t room r)
    (hn : NumbersWithin (.integers 4300) t) (hd : NestsWithin limit t) (hl : limit < room) :
    Kept t r := by
  cases h with
  | object members => exact .inl ⟨members, rfl⟩
  | refused he => exact .inr ⟨_, rfl, he⟩
  | numberTooLong hmet =>
    obtain ⟨-, before, u, depth, n, hplace, hsep, hfirst, hlong, -⟩ := hmet
    have hfit : n.exceeds (.integers 4300) = false := hn before u depth n hplace hsep hfirst
    exact absurd (hfit.symm.trans hlong) (by decide)
  | tooDeep hmet =>
    obtain ⟨before, c, u, depth, hplace, hc, hdeep⟩ := hmet
    have hlead := Json.leads_of_opening hc
    have hle := hd before (.char c) u depth hplace hlead.not_space hlead.not_closing
    exact absurd (hdeep.trans hle) (Nat.not_le_of_lt hl)

theorem parse_ones {k : ℕ} (hk : 4300 < k) (room : ℕ) :
    parse (.ofText (ones k)) room = .error (.numberTooLong 4300 k) := by
  have hform := Json.numberForm_ones (Nat.zero_lt_of_lt hk)
  have hlength : (ones k).length = k := List.length_replicate
  have hread := Json.read_of_long (d := documents room) hform (by
    simp [Json.NumberText.exceeds, Json.NumberText.isInteger, documents, hlength, hk])
  have hblank : Text.allBlank (WideText.ofText (ones k)) = false := by
    obtain ⟨c, u, hc, hlead, -⟩ := Json.number_cons hform
    rw [hc, WideText.ofText_cons, Text.allBlank, List.all_cons, hlead.not_blank]
    rfl
  rw [parse, hblank, hread]
  simp only [hlength]
  rfl

/-- One digit more than the reader takes ends in a failure that does not keep the text. -/
theorem long_number_not_refused : parse (.ofText (ones 4301)) = .error (.numberTooLong 4300 4301) ∧
    ¬ Kept (.ofText (ones 4301)) (parse (.ofText (ones 4301))) := by
  have hparse := parse_ones (by decide : 4300 < 4301) usualRoom
  refine ⟨hparse, ?_⟩
  rw [hparse]
  rintro (⟨members, h⟩ | ⟨e, h, hr⟩)
  · cases h
  · cases h
    cases hr

theorem parse_eq_ok_iff :
    parse t room = .ok members ↔ Document (documents room) t (.obj members) := by
  constructor
  · intro h
    unfold parse at h
    split at h
    · cases h
    · split at h
      · rename_i hread
        cases h
        exact Json.document_of_read hread
      all_goals cases h
  · exact parse_of_document

/-- Within the bounds, and with room for the nesting that they allow, the texts that are read are the
documents of the grammar that are objects, each as its object, and every other text is refused. -/
theorem parse_iff_derives (hn : NumbersWithin (.integers 4300) t) (hd : NestsWithin 200 t)
    (hroom : 200 < room) :
    (∀ members, parse t room = .ok members ↔ Derives true t (.obj members)) ∧
      ((∀ members, ¬ Derives true t (.obj members)) →
        ∃ e, parse t room = .error e ∧ e.refused? = some t) := by
  have hwithin : Json.Within (documents room) t :=
    ⟨hn, 200, hd, Nat.le_of_lt hroom, Json.NestingRule.admitsEmpty_of_lt (Nat.sub_pos_of_lt hroom)⟩
  have hiff (members : Members) : parse t room = .ok members ↔ Derives true t (.obj members) :=
    parse_eq_ok_iff.trans (Json.derives_iff hwithin).symm
  refine ⟨hiff, fun hnone => ?_⟩
  rcases (parse_ends t room).kept hn hd hroom with ⟨members, hok⟩ | hrefused
  · exact absurd ((hiff members).mp hok) (hnone members)
  · exact hrefused

def sampleText : WideText := ofText "\x7b\"a\":".toList ++
  (ofText (ones 2) ++ ofText ",\"b\":NaN,\"a\":\"last\"\x7d".toList)

def sampleMembers : Members := [(ofText ['a'], .ofText "last".toList), (ofText ['b'], .float .nan)]

theorem derives_sample : Derives true sampleText (.obj sampleMembers) := by
  let ps : List Json.PrintedMember := [(['a'], ones 2, .int 11), (['b'], "NaN".toList, .float .nan),
    (['a'], Json.stringText "last".toList, .ofText "last".toList)]
  have hvalues : ∀ p ∈ ps, Json.Value (documents 1) 0 (ofText p.2.1) p.2.2 := by
    simp only [ps, List.forall_mem_cons]
    exact ⟨.number (Json.numberForm_ones (by decide)) rfl, .named (by simp [Json.namedValues]),
      Json.value_stringText (documents 1) 0 _, List.forall_mem_nil _⟩
  have hobject : Json.Value (documents 1) 1 sampleText (.obj sampleMembers) :=
    Json.value_of_members hvalues
  exact ⟨1, .integers 4300, Json.document_of_value hobject⟩

theorem sample_iff_derives : NumbersWithin (.integers 4300) sampleText ∧ NestsWithin 200 sampleText ∧
    Derives true sampleText (.obj sampleMembers) ∧ parse sampleText = .ok sampleMembers := by
  have hn : NumbersWithin (.integers 4300) sampleText := by
    apply Json.numbersWithin_of_one (by decide) (Json.numberForm_ones (by decide)) _ (by decide) rfl
    exact Json.delimited_append (w := []) (List.forall_mem_nil _) (by decide) _
  have hd : NestsWithin 200 sampleText := Json.nestsWithin_of_countP (by decide)
  exact ⟨hn, hd, derives_sample, ((parse_iff_derives hn hd (by decide)).1 sampleMembers).mpr derives_sample⟩

end Result
end ParserRelay
