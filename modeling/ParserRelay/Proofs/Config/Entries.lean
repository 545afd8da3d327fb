import ParserRelay.Config
import ParserRelay.Proofs.Json.Members
import ParserRelay.Proofs.Validation.Acceptance
/-!
# What a configuration takes from an object

Each entry of an object goes to one field of the configuration or stays among the others. A path
stands under its usual key, or else under the plain name of its field.
-/
namespace ParserRelay
open Json (Members)
open WideText (ofText)

namespace PathField

variable {f : PathField} {members : Members} {x : Option WideText}

theorem mem_all (f : PathField) : f ∈ all := by
  cases f <;> decide

def entry : Option WideText → Json
  | none => .null
  | some s => .str s

theorem check_eq_ok_iff :
    f.check members = .ok x ↔ ((f.taken? members).map Prod.snd).getD .null = entry x := by
  rw [check]
  cases f.taken? members with
  | none => cases x <;> simp [entry]
  | some e =>
    obtain ⟨key, v⟩ := e
    cases v <;> cases x <;> simp [entry, Checked.string, Checked.fault, Except.map]

end PathField

namespace Config

variable {members others : Members} {c : Config} {p q : ParserName} {e e' : WideText × Json}

def path (c : Config) : PathField → Option WideText
  | .customSwiftCli => c.customSwiftCli
  | .xcodeproj => c.xcodeproj
  | .gradleWrapper => c.gradleWrapper

theorem validate_eq_ok_iff {parser : Option ParserName} : validate (.object parser others) = .ok c ↔
    (∀ key ∈ Members.keys others, (WideText.toText? key).isSome) ∧
      (∃ p, parser = some p ∧ c.parser = parserText p) ∧
      (∀ f : PathField, f.check others = .ok (c.path f)) ∧
      c.given = givenFields others ∧ c.extra = leftOver others := by
  unfold validate
  rw [Checked.withPlainKeys_eq_ok_iff]
  apply and_congr_right
  intro _
  simp only [Checked.both_eq_ok_iff]
  constructor
  · rintro ⟨name, paths, hname, ⟨swift, rest, hswift, ⟨xcode, gradle, hxcode, hgradle, rfl⟩, rfl⟩, rfl⟩
    refine ⟨?_, ?_, rfl, rfl⟩
    · cases parser with
      | none => cases hname
      | some p => exact ⟨p, rfl, (Except.ok.inj hname).symm⟩
    · intro f
      cases f with
      | customSwiftCli => exact hswift
      | xcodeproj => exact hxcode
      | gradleWrapper => exact hgradle
  · rintro ⟨⟨p, rfl, hp⟩, hpath, hgiven, hextra⟩
    refine ⟨_, _, rfl, ⟨_, _, hpath .customSwiftCli, ⟨_, _, hpath .xcodeproj, hpath .gradleWrapper, rfl⟩,
      rfl⟩, ?_⟩
    rw [← hp, ← hgiven, ← hextra]
    rfl

theorem validate_with (h : validate (.object (some p) others) = .ok c) :
    validate (.object (some q) others) = .ok { c with parser := parserText q } := by
  obtain ⟨hkeys, -, hpath, hgiven, hextra⟩ := validate_eq_ok_iff.mp h
  exact validate_eq_ok_iff.mpr ⟨hkeys, ⟨q, rfl, rfl⟩, hpath, hgiven, hextra⟩

/-- The fields for which an object may have an entry. -/
inductive Field
  | parser
  | path (f : PathField)

namespace Field

def name : Field → Text
  | .parser => parserKey
  | .path f => f.name

def ofKey? (key : WideText) : Option Field :=
  if key = ofText parserKey then some .parser
  else (PathField.all.find? fun f => key = ofText f.usualKey ∨ key = ofText f.name).map .path

end Field

/-- The entry is that of the field. Under its plain name a path is only looked for if the object does
not have the usual key. -/
inductive Takes (members : Members) : Field → WideText × Json → Prop
  | parser {v} : (ofText parserKey, v) ∈ members → Takes members .parser (ofText parserKey, v)
  | usual {f v} : (ofText f.usualKey, v) ∈ members → Takes members (.path f) (ofText f.usualKey, v)
  | plain {f v} : ofText f.usualKey ∉ Members.keys members → (ofText f.name, v) ∈ members →
      Takes members (.path f) (ofText f.name, v)

variable {F G : Field} {f : PathField}

theorem Takes.mem (h : Takes members F e) : e ∈ members := by
  cases h <;> assumption

theorem Takes.ofKey? (h : Takes members F e) : Field.ofKey? e.1 = some F := by
  cases h with
  | parser h => rfl
  | @usual f v h => cases f <;> rfl
  | @plain f v hu h => cases f <;> rfl

theorem takes_path_iff (hn : (Members.keys members).Nodup) : Takes members (.path f) e ↔
    ∃ t, f.taken? members = some (t, e.2) ∧ ofText t = e.1 := by
  constructor
  · intro h
    cases h with
    | @usual f v h =>
      refine ⟨f.usualKey, ?_, rfl⟩
      rw [PathField.taken?, (Members.get?_eq_some_iff hn).mpr h]
    | @plain f v hu h =>
      refine ⟨f.name, ?_, rfl⟩
      rw [PathField.taken?, Members.get?_of_not_mem hu, (Members.get?_eq_some_iff hn).mpr h]
      rfl
  · obtain ⟨key, v⟩ := e
    rintro ⟨t, ht, rfl⟩
    rw [PathField.taken?] at ht
    split at ht
    · rename_i w hw
      cases ht
      exact .usual ((Members.get?_eq_some_iff hn).mp hw)
    · rename_i hnone
      obtain ⟨w, hw, heq⟩ := Option.map_eq_some_iff.mp ht
      cases heq
      refine .plain ?_ ((Members.get?_eq_some_iff hn).mp hw)
      intro hmem
      obtain ⟨⟨k, w⟩, he, rfl⟩ := List.mem_map.mp hmem
      cases hnone.symm.trans ((Members.get?_eq_some_iff hn).mpr he)

theorem Takes.eq (hn : (Members.keys members).Nodup) (h : Takes members F e)
    (h' : Takes members F e') : e = e' := by
  cases F with
  | parser =>
    have hmem := h.mem
    have hmem' := h'.mem
    cases h
    cases h'
    exact List.inj_on_of_nodup_map hn hmem hmem' rfl
  | path f =>
    obtain ⟨t, ht, hkey⟩ := (takes_path_iff hn).mp h
    obtain ⟨t', ht', hkey'⟩ := (takes_path_iff hn).mp h'
    obtain ⟨rfl, hv⟩ := Prod.mk.inj (Option.some.inj (ht.symm.trans ht'))
    exact Prod.ext (hkey.symm.trans hkey') hv

section Rest

def besideParser (members : Members) : Members := members.filter (·.1 ≠ ofText parserKey)

theorem ofJson_obj : Source.ofJson (.obj members) = .object
    ((Members.get? (ofText parserKey) members).map .value) (besideParser members) := rfl

theorem mem_besideParser_iff :
    e ∈ besideParser members ↔ e ∈ members ∧ e.1 ≠ ofText parserKey := by
  simp [besideParser]

theorem taken?_besideParser : f.taken? (besideParser members) = f.taken? members := by
  have hkeys : ofText f.usualKey ≠ ofText parserKey ∧ ofText f.name ≠ ofText parserKey := by
    cases f <;> decide
  have husual : Members.get? (ofText f.usualKey) (besideParser members) =
      Members.get? (ofText f.usualKey) members :=
    Members.get?_filter fun v => decide_eq_true hkeys.1
  have hplain : Members.get? (ofText f.name) (besideParser members) = Members.get? (ofText f.name) members :=
    Members.get?_filter fun v => decide_eq_true hkeys.2
  rw [PathField.taken?, husual, hplain, PathField.taken?]

def takenKeys (members : Members) : List WideText :=
  (PathField.all.filterMap fun f => (f.taken? members).map (·.1)).map ofText

theorem mem_takenKeys_iff {key : WideText} : key ∈ takenKeys members ↔
    ∃ t, (∃ f v, PathField.taken? f members = some (t, v)) ∧ ofText t = key := by
  simp [takenKeys, PathField.mem_all]

theorem leftOver_eq : leftOver members = members.filter (·.1 ∉ takenKeys members) := by
  apply List.filter_congr
  intro e _
  rw [Bool.eq_iff_iff, takenKeys]
  simp only [Bool.not_eq_true', List.any_eq_false, decide_eq_true_eq, List.mem_map, not_exists, not_and]

theorem leftOver_besideParser_sublist : (leftOver (besideParser members)).Sublist members :=
  List.filter_sublist.trans List.filter_sublist

theorem mem_leftOver_besideParser_iff (hn : (Members.keys members).Nodup) (he : e ∈ members) :
    e ∈ leftOver (besideParser members) ↔ ∀ F, ¬ Takes members F e := by
  simp only [leftOver_eq, List.mem_filter, decide_eq_true_eq, mem_takenKeys_iff, taken?_besideParser,
    mem_besideParser_iff, he, true_and]
  constructor
  · rintro ⟨hparser, hpath⟩ F h
    cases F with
    | parser =>
      cases h
      exact hparser rfl
    | path f =>
      obtain ⟨t, ht, hkey⟩ := (takes_path_iff hn).mp h
      exact hpath ⟨t, ⟨f, e.2, ht⟩, hkey⟩
  · obtain ⟨key, v⟩ := e
    intro h
    constructor
    · rintro rfl
      exact h .parser (.parser he)
    · rintro ⟨t, ⟨f, w, ht⟩, rfl⟩
      have hw := (takes_path_iff (e := (ofText t, w)) hn).mpr ⟨t, ht, rfl⟩
      -- The key is that of one entry only, so the path takes this one.
      rw [List.inj_on_of_nodup_map hn hw.mem he rfl] at hw
      exact h (.path f) hw

end Rest

theorem mem_fieldsSet_iff {key : WideText} : key ∈ c.fieldsSet ↔
    (∃ t ∈ c.given, ofText t = key) ∨ key ∈ Members.keys c.extra := by
  rw [fieldsSet, (Text.sortBy_perm _ _).mem_iff]
  simp

theorem nodup_eraseDups (keys : List WideText) : keys.eraseDups.Nodup := by
  induction keys using List.reverseRecOn with
  | nil => exact List.nodup_nil
  | append_singleton keys key ih =>
    rw [List.eraseDups_append]
    by_cases h : key ∈ keys
    · simpa [List.removeAll, h] using ih
    · have hfresh : ∀ k ∈ keys, k ≠ key := fun k hk he => h (he ▸ hk)
      simpa [List.removeAll, h, List.eraseDups_cons, List.nodup_append, ih] using hfresh

theorem fieldsSet_nodup (c : Config) : c.fieldsSet.Nodup :=
  (Text.sortBy_perm _ _).nodup_iff.mpr (nodup_eraseDups _)

theorem mem_givenFields_iff {t : Text} : t ∈ givenFields members ↔
    t = parserKey ∨ ∃ f, (PathField.taken? f members).isSome ∧ f.name = t := by
  simp [givenFields, PathField.mem_all]

/-- The configuration uses each entry of the object once: for one field, or as one of the others. -/
structure Keeps (members : Members) (c : Config) : Prop where
  parser : ∃ v, Takes members .parser (ofText parserKey, v) ∧ c.parser = Text.trim v.display
  path : ∀ f e, Takes members (.path f) e → e.2 = PathField.entry (c.path f)
  no_path : ∀ f, (∀ e, ¬ Takes members (.path f) e) → c.path f = none
  one_field : ∀ F G e, Takes members F e → Takes members G e → F = G
  one_entry : ∀ F e e', Takes members F e → Takes members F e' → e = e'
  extra_iff : ∀ e ∈ members, e ∈ c.extra ↔ ∀ F, ¬ Takes members F e
  extra_order : c.extra.Sublist members
  fieldsSet_iff : ∀ key, key ∈ c.fieldsSet ↔
    (∃ F e, Takes members F e ∧ ofText F.name = key) ∨ key ∈ Members.keys c.extra
  fieldsSet_once : c.fieldsSet.Nodup

theorem keeps_of_validate (hn : (Members.keys members).Nodup)
    (h : validate (.ofJson (.obj members)) = .ok c) : Keeps members c := by
  rw [ofJson_obj] at h
  obtain ⟨-, ⟨p, hp, hparser⟩, hpath, hgiven, hextra⟩ := validate_eq_ok_iff.mp h
  obtain ⟨v, hv, rfl⟩ := Option.map_eq_some_iff.mp hp
  have hvalue (f : PathField) :
      ((f.taken? members).map Prod.snd).getD .null = PathField.entry (c.path f) := by
    rw [← taken?_besideParser]
    exact PathField.check_eq_ok_iff.mp (hpath f)
  have htakes : Takes members .parser (ofText parserKey, v) :=
    .parser ((Members.get?_eq_some_iff hn).mp hv)
  constructor
  · exact ⟨v, htakes, hparser⟩
  · intro f e he
    obtain ⟨t, ht, -⟩ := (takes_path_iff hn).mp he
    rw [← hvalue f, ht]
    rfl
  · intro f hnone
    have hf : f.taken? members = none := by
      apply Option.eq_none_iff_forall_not_mem.mpr
      intro e he
      exact hnone (ofText e.1, e.2) ((takes_path_iff hn).mpr ⟨e.1, he, rfl⟩)
    have hnull := hvalue f
    rw [hf] at hnull
    cases hc : c.path f with
    | none => rfl
    | some s =>
      rw [hc] at hnull
      cases hnull
  · intro F G e hF hG
    exact Option.some.inj (hF.ofKey?.symm.trans hG.ofKey?)
  · exact fun F e e' h h' => h.eq hn h'
  · intro e he
    rw [hextra]
    exact mem_leftOver_besideParser_iff hn he
  · rw [hextra]
    exact leftOver_besideParser_sublist
  · intro key
    rw [mem_fieldsSet_iff]
    apply or_congr_left
    simp only [hgiven, mem_givenFields_iff, taken?_besideParser]
    constructor
    · rintro ⟨t, rfl | ⟨f, hf, rfl⟩, rfl⟩
      · exact ⟨.parser, _, htakes, rfl⟩
      · obtain ⟨e, he⟩ := Option.isSome_iff_exists.mp hf
        exact ⟨.path f, (ofText e.1, e.2), (takes_path_iff hn).mpr ⟨e.1, he, rfl⟩, rfl⟩
    · rintro ⟨F, e, he, rfl⟩
      cases F with
      | parser => exact ⟨parserKey, .inl rfl, rfl⟩
      | path f =>
        obtain ⟨t, ht, -⟩ := (takes_path_iff hn).mp he
        exact ⟨f.name, .inr ⟨f, Option.isSome_of_mem ht, rfl⟩, rfl⟩
  · exact fieldsSet_nodup c

end Config
end ParserRelay
