import ParserRelay.Proofs.Call.Plan
import ParserRelay.Proofs.Config.Entries
import ParserRelay.Proofs.Text.Trim
/-!
# Looking up parsers

Descriptors make a registry unless two of them have one name, and the first that repeats a name is
reported. In a registry a name leads to the one descriptor that has it, whichever operation looks it
up and however a configuration pads it.
-/
namespace ParserRelay

namespace Registry
open Descriptor (name)

variable {r : Registry} {ds : List Descriptor} {d : Descriptor} {q : ParserName} {n : WideText}
  {names seen before rest : List WideText} {e : Failure}

theorem repeatedFrom_append (hn : before.Nodup) (hs : ∀ m ∈ before, m ∉ seen) :
    repeatedFrom seen (before ++ rest) = repeatedFrom (before.reverse ++ seen) rest := by
  induction before generalizing seen with
  | nil => rfl
  | cons m before ih =>
    obtain ⟨hm, hn⟩ := List.nodup_cons.mp hn
    have hfresh : ∀ k ∈ before, k ∉ m :: seen := by
      intro k hk hmem
      rcases List.mem_cons.mp hmem with rfl | hmem
      · exact hm hk
      · exact hs k (List.mem_cons_of_mem m hk) hmem
    rw [List.cons_append, repeatedFrom, if_neg (hs m List.mem_cons_self), ih hn hfresh]
    simp

theorem split_of_repeatedFrom (h : repeatedFrom seen names = some n) : ∃ before after,
    names = before ++ n :: after ∧ before.Nodup ∧ (∀ m ∈ before, m ∉ seen) ∧
      n ∈ before.reverse ++ seen := by
  induction names generalizing seen with
  | nil => cases h
  | cons m names ih =>
    rw [repeatedFrom] at h
    split at h
    · rename_i hm
      cases h
      exact ⟨[], names, rfl, List.nodup_nil, by simp, hm⟩
    · rename_i hm
      obtain ⟨before, after, rfl, hn, hs, hmem⟩ := ih h
      refine ⟨m :: before, after, rfl, ?_, ?_, by simpa using hmem⟩
      · exact List.nodup_cons.mpr ⟨fun hk => hs m hk List.mem_cons_self, hn⟩
      · intro k hk
        rcases List.mem_cons.mp hk with rfl | hk
        · exact hm
        · exact fun hmem => hs k hk (List.mem_cons_of_mem m hmem)

def FirstRepeat (names : List WideText) (n : WideText) : Prop :=
  ∃ before after, names = before ++ n :: after ∧ before.Nodup ∧ n ∈ before

theorem repeatedFrom_eq_some_iff : repeatedFrom [] names = some n ↔ FirstRepeat names n := by
  constructor
  · intro h
    obtain ⟨before, after, hsplit, hn, -, hmem⟩ := split_of_repeatedFrom h
    exact ⟨before, after, hsplit, hn, by simpa using hmem⟩
  · rintro ⟨before, after, rfl, hn, hmem⟩
    rw [repeatedFrom_append hn (by simp), repeatedFrom, if_pos (by simpa using hmem)]

theorem repeatedFrom_eq_none_iff : repeatedFrom [] names = none ↔ names.Nodup := by
  constructor
  · exact fun h => (nodup_of_repeatedFrom h).1
  · intro h
    have hall := @repeatedFrom_append [] names [] h (by simp)
    rw [List.append_nil] at hall
    rw [hall, repeatedFrom]

theorem ofList_of_repeated (h : repeatedFrom [] (ds.map name) = some n) :
    ofList ds = .error (.duplicateParser n) := by
  unfold ofList
  split
  · rename_i m hm
    cases h.symm.trans hm
    rfl
  · rename_i hnone
    cases h.symm.trans hnone

theorem ofList_of_nodup (h : (ds.map name).Nodup) : ofList ds = .ok ⟨ds, h⟩ := by
  unfold ofList
  split
  · rename_i m hm
    cases (repeatedFrom_eq_none_iff.mpr h).symm.trans hm
  · rfl

theorem ofList_eq_error_iff :
    ofList ds = .error e ↔ ∃ n, FirstRepeat (ds.map name) n ∧ e = .duplicateParser n := by
  cases h : repeatedFrom [] (ds.map name) with
  | none =>
    have hn := repeatedFrom_eq_none_iff.mp h
    rw [ofList_of_nodup hn]
    constructor
    · intro he
      cases he
    · rintro ⟨n, hfirst, -⟩
      cases h.symm.trans (repeatedFrom_eq_some_iff.mpr hfirst)
  | some n =>
    rw [ofList_of_repeated h]
    constructor
    · rintro ⟨⟩
      exact ⟨n, repeatedFrom_eq_some_iff.mp h, rfl⟩
    · rintro ⟨m, hfirst, rfl⟩
      cases h.symm.trans (repeatedFrom_eq_some_iff.mpr hfirst)
      rfl

theorem descriptors_of_ofList (h : ofList ds = .ok r) : r.descriptors = ds := by
  by_cases hn : (ds.map name).Nodup
  · rw [ofList_of_nodup hn] at h
    cases h
    rfl
  · cases hr : repeatedFrom [] (ds.map name) with
    | none => exact absurd (repeatedFrom_eq_none_iff.mp hr) hn
    | some n =>
      rw [ofList_of_repeated hr] at h
      cases h

theorem find?_eq_some_iff : r.find? n = some d ↔ d ∈ r.descriptors ∧ d.name = n := by
  constructor
  · intro h
    exact ⟨List.mem_of_find?_eq_some h, by simpa using List.find?_some h⟩
  · rintro ⟨hd, rfl⟩
    cases h : r.find? d.name with
    | none => simpa using List.find?_eq_none.mp h d hd
    | some d' =>
      have hname : d'.name = d.name := by simpa using List.find?_some h
      rw [List.inj_on_of_nodup_map r.distinct (List.mem_of_find?_eq_some h) hd hname]

theorem find?_eq_none_iff : r.find? n = none ↔ n ∉ r.names := by
  simp [find?, names]

theorem get_eq_ok_iff : r.get q = .ok d ↔ d ∈ r.descriptors ∧ d.name = q.identifier := by
  rw [← find?_eq_some_iff, get]
  cases r.find? q.identifier <;> simp

theorem get_of_not_mem (h : q.identifier ∉ r.names) :
    r.get q = .error (.unknownParser q.identifier r.names) := by
  rw [get, find?_eq_none_iff.mpr h]

theorem contains_iff : r.contains q = true ↔ q.identifier ∈ r.names := by
  rw [contains, ← not_iff_not, ← find?_eq_none_iff]
  simp

/-- All operations of the registry go by the names of the descriptors, each of which has one. -/
structure Serves (r : Registry) (ds : List Descriptor) : Prop where
  names : r.names = ds.map name
  contains_iff : ∀ q, r.contains q = true ↔ q.identifier ∈ ds.map name
  get_iff : ∀ q d, r.get q = .ok d ↔ d ∈ ds ∧ d.name = q.identifier
  get_known : ∀ q, q.identifier ∈ ds.map name → ∃ d, r.get q = .ok d
  get_unknown : ∀ q, q.identifier ∉ ds.map name →
    r.get q = .error (.unknownParser q.identifier r.names)
  hint_known : ∀ q d stderr, r.get q = .ok d → r.hint? stderr q = d.hint stderr
  hint_unknown : ∀ q stderr, q.identifier ∉ ds.map name → r.hint? stderr q = none
  padded : ∀ d ∈ ds, Text.trim d.name = d.name → ∀ before after : WideText,
    (∀ c ∈ before, Text.isBlank c) → (∀ c ∈ after, Text.isBlank c) → ∀ p others config,
      Config.validate (.object (some p) others) = .ok config → ∃ padded,
        Config.validate (.object (some (.ofText (before ++ d.name ++ after))) others) = .ok padded ∧
          r.get (.ofText padded.parser) = .ok d

theorem serves_of_ofList (h : ofList ds = .ok r) : Serves r ds := by
  have hds := descriptors_of_ofList h
  have hnames : r.names = ds.map name := congrArg (List.map name) hds
  constructor
  · exact hnames
  · intro q
    rw [contains_iff, hnames]
  · intro q d
    rw [get_eq_ok_iff, hds]
  · intro q hq
    obtain ⟨d, hd, hname⟩ := List.mem_map.mp hq
    exact ⟨d, get_eq_ok_iff.mpr ⟨hds ▸ hd, hname⟩⟩
  · intro q hq
    exact get_of_not_mem (hnames ▸ hq)
  · intro q d stderr hd
    rw [hint?, hd]
  · intro q stderr hq
    rw [hint?, get_of_not_mem (hnames ▸ hq)]
  · intro d hd htrim before after hbefore hafter p others config hconfig
    refine ⟨_, Config.validate_with hconfig, get_eq_ok_iff.mpr ⟨hds ▸ hd, ?_⟩⟩
    have hparser : Config.parserText (.ofText (before ++ d.name ++ after)) = d.name :=
      (Text.trim_padded hbefore hafter).trans htrim
    rw [ParserName.identifier_ofText, hparser]

/-- Descriptors make a registry that serves them, or the first repeated name is reported. -/
theorem ofList_serves_or_repeats (ds : List Descriptor) :
    (∀ e, ofList ds = .error e ↔ ∃ n, FirstRepeat (ds.map name) n ∧ e = .duplicateParser n) ∧
      ((∃ r, ofList ds = .ok r) ↔ (ds.map name).Nodup) ∧ ∀ r, ofList ds = .ok r → Serves r ds := by
  refine ⟨fun e => ofList_eq_error_iff, ⟨?_, fun h => ⟨_, ofList_of_nodup h⟩⟩, fun r => serves_of_ofList⟩
  rintro ⟨r, hr⟩
  rw [← descriptors_of_ofList hr]
  exact r.distinct

def unnamed : Descriptor := { Descriptor.base with name := [] }

/-- A registry with an unnamed descriptor: null leads to it, and a padded name to the other. -/
theorem unnamed_and_swift_served : ∃ r, ofList [unnamed, .swift] = .ok r ∧
    r.get (.value .null) = .ok unnamed ∧
    r.get (.value (.int 1)) = .error (.unknownParser (.ofString "1") r.names) ∧
    (∃ config, Config.validate (.object (some (.ofText (.ofString " swift\t"))) []) = .ok config ∧
      r.get (.ofText config.parser) = .ok .swift) ∧
    ofList [unnamed, .swift, unnamed] = .error (.duplicateParser []) := by
  have hnames : ([unnamed, .swift].map name).Nodup := by decide
  have hr := ofList_of_nodup hnames
  have hserves := (ofList_serves_or_repeats [unnamed, .swift]).2.2 _ hr
  refine ⟨_, hr, ?_, ?_, ?_, ?_⟩
  · exact (hserves.get_iff _ _).mpr ⟨List.mem_cons_self, rfl⟩
  · exact hserves.get_unknown _ (by decide)
  · have hmem : Descriptor.swift ∈ [unnamed, .swift] := by simp
    exact hserves.padded _ hmem rfl (.ofString " ") (.ofString "\t") (by decide) (by decide)
      (.builtIn .compose) [] _ rfl
  · apply ((ofList_serves_or_repeats _).1 _).mpr
    exact ⟨[], ⟨[[], Descriptor.swift.name], [], rfl, by decide, by decide⟩, rfl⟩

end Registry
end ParserRelay
