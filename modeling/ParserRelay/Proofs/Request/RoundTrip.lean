import ParserRelay.Proofs.Json.Acceptance
import ParserRelay.Proofs.Json.Printing
import ParserRelay.Request
import ParserRelay.Result
/-!
# Requests come back

A request made of values that an exchange keeps is written on one line, and what is written is read
back as its members: the mode first, then the others in their order.
-/
namespace ParserRelay

theorem Result.parse_of_document {t : WideText} {room : ℕ} {members : Json.Members}
    (h : Json.Document (Json.documents room) t (.obj members)) :
    Result.parse t room = .ok members := by
  have hb : Text.allBlank t = false := by
    generalize Json.obj members = v at h
    cases h with
    | @mk e _ hv =>
      obtain ⟨c, u, ht, hc⟩ := hv.cons
      refine List.all_eq_false.2 ⟨.char c, ?_, by simp [hc.not_blank]⟩
      simp [Json.Element.written, ht]
  rw [Result.parse, hb, Json.read_of_document h]
  rfl

namespace Request
open Json (Exchangeable Members)

variable {members : Members} {m : Mode}

theorem ofJson_of_mode (hk : ∀ m ∈ members, (WideText.toText? m.1).isSome)
    (hm : Members.get? (.ofText modeKey) members = some (.ofText m.name)) :
    ofJson (.obj members) = .ok ⟨m, members.filter (·.1 ≠ .ofText modeKey)⟩ := by
  have hmode : checkMode (.ofText m.name) = .ok m := by
    simp [checkMode, Checked.choice, Json.ofText, WideText.toText?_ofText, Mode.ofName?_name]
  rw [ofJson, Checked.withPlainKeys, if_pos (List.all_eq_true.2 hk), hm, Checked.required, hmode]
  rfl

theorem exchangeable_request {k : ℕ} (h : Exchangeable (k + 1) (.obj members)) (m : Mode) :
    Exchangeable (k + 1) (toJson ⟨m, members.filter (·.1 ≠ .ofText modeKey)⟩) := by
  cases h with
  | obj hn hk hv =>
    have hsub : (members.filter (·.1 ≠ .ofText modeKey)).Sublist members := List.filter_sublist
    have hmode : WideText.ofText modeKey ∉
        Members.keys (members.filter (·.1 ≠ .ofText modeKey)) := by
      intro hm
      obtain ⟨e, he, hkey⟩ := List.mem_map.mp hm
      exact of_decide_eq_true (List.mem_filter.mp he).2 hkey
    refine .obj (List.nodup_cons.2 ⟨hmode, hn.sublist (hsub.map _)⟩) ?_ ?_
    · refine List.forall_mem_cons.2 ⟨?_, fun e he => hk e (hsub.subset he)⟩
      simp [WideText.toText?_ofText]
    · refine List.forall_mem_cons.2 ⟨?_, fun e he => hv e (hsub.subset he)⟩
      exact .str (by simp [WideText.toText?_ofText])

/-- A request of values that an exchange keeps is written on a line, and this line is read back as
the mode and then every other member in its place, wherever there is room for its levels; these make
the same request again. -/
theorem render_read_back (h : Exchangeable 201 (.obj members))
    (hm : Members.get? (.ofText modeKey) members = some (.ofText m.name)) :
    ∃ r t, ofJson (.obj members) = .ok r ∧ r.render = .ok t ∧ (∀ c ∈ t, 0x20 ≤ c.toNat) ∧
      (∀ room, 200 < room → Result.parse (.ofText t) room =
        .ok ((.ofText modeKey, .ofText m.name) :: members.filter (·.1 ≠ .ofText modeKey))) ∧
      ofJson (.obj ((.ofText modeKey, .ofText m.name) ::
        members.filter (·.1 ≠ .ofText modeKey))) = .ok r := by
  have hr := exchangeable_request h m
  obtain ⟨t, ht, hform, hvisible⟩ := Json.printed_of_exchangeable hr (by decide : 201 ≤ memberLevels)
  have hparse (room : ℕ) (hroom : 200 < room) := Result.parse_of_document
    (Json.document_of_value ((hform room).mono hroom))
  have hfirst : ofJson (.obj members) = .ok ⟨m, members.filter (·.1 ≠ .ofText modeKey)⟩ := by
    cases h with
    | obj _ hk _ => exact ofJson_of_mode hk hm
  have hagain : ofJson (toJson ⟨m, members.filter (·.1 ≠ .ofText modeKey)⟩) =
      .ok ⟨m, members.filter (·.1 ≠ .ofText modeKey)⟩ := by
    cases hr with
    | obj _ hk _ =>
      rw [toJson, ofJson_of_mode hk (if_pos rfl)]
      simp
  exact ⟨_, t, hfirst, ht, hvisible, hparse, hagain⟩

def escapedFile : Json :=
  .obj [(.ofString "path", .str (.ofString "a\"b\nü")), (.ofString "lines", .int (-120))]

def nestedMembers : Members := [(.ofString "files", .arr [escapedFile, .null]),
  (.ofText modeKey, .ofText Mode.parse.name), (.ofString "strict", .bool true)]

theorem nested_request_read_back : Exchangeable 201 (.obj nestedMembers) ∧
    Members.get? (.ofText modeKey) nestedMembers = some (.ofText Mode.parse.name) ∧
    ∃ r t, ofJson (.obj nestedMembers) = .ok r ∧ r.render = .ok t ∧ (∀ c ∈ t, 0x20 ≤ c.toNat) ∧
      Result.parse (.ofText t) = .ok [(.ofText modeKey, .ofText Mode.parse.name),
        (.ofString "files", .arr [escapedFile, .null]), (.ofString "strict", .bool true)] := by
  have hfile : Exchangeable 199 escapedFile := by
    refine .obj (by decide) (by decide) ?_
    simp only [List.forall_mem_cons]
    exact ⟨.str (by decide), .int (by decide), List.forall_mem_nil _⟩
  have hfiles : Exchangeable 200 (.arr [escapedFile, .null]) := by
    refine .arr ?_
    simp only [List.forall_mem_cons]
    exact ⟨hfile, .null, List.forall_mem_nil _⟩
  have h : Exchangeable 201 (.obj nestedMembers) := by
    refine .obj (by decide) (by decide) ?_
    simp only [nestedMembers, List.forall_mem_cons]
    exact ⟨hfiles, .str (by decide), .bool true, List.forall_mem_nil _⟩
  have hm : Members.get? (.ofText modeKey) nestedMembers = some (.ofText Mode.parse.name) := rfl
  obtain ⟨r, t, hr, ht, hvisible, hparse, -⟩ := render_read_back h hm
  exact ⟨h, hm, r, t, hr, ht, hvisible, hparse _ (by decide)⟩

end Request
end ParserRelay
