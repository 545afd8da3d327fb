import ParserRelay.Call
import ParserRelay.Proofs.Config.Entries
/-!
# Paths under their plain names

A path may be given under either key. As long as an object does not give it under both, a configuration
and all that is made from it do not tell which key was used.
-/
namespace ParserRelay
open Json (Members)
open WideText (ofText)

namespace Json.Members

variable {m : Members} {key old new : WideText}

def rename (old new : WideText) (m : Members) : Members :=
  m.map fun (k, v) => (if k = old then new else k, v)

theorem rename_of_not_mem (h : old ∉ keys m) : rename old new m = m := by
  have hkeep (e : WideText × Json) (he : e ∈ m) : (if e.1 = old then new else e.1, e.2) = id e := by
    have hk : e.1 ≠ old := by
      rintro rfl
      exact h (List.mem_map_of_mem he)
    rw [if_neg hk, id]
  rw [rename, List.map_congr_left hkeep, List.map_id]

theorem get?_rename_of_ne (ho : key ≠ old) (hn : key ≠ new) :
    get? key (rename old new m) = get? key m := by
  induction m with
  | nil => rfl
  | cons e r ih =>
    obtain ⟨k, v⟩ := e
    rw [rename, List.map_cons, get?, get?]
    by_cases hk : k = old
    · rw [if_pos hk, if_neg (Ne.symm hn), if_neg (hk ▸ Ne.symm ho)]
      exact ih
    · rw [if_neg hk]
      split
      · rfl
      · exact ih

theorem get?_rename_old (h : old ≠ new) : get? old (rename old new m) = none := by
  apply get?_of_not_mem
  intro hmem
  obtain ⟨e, he, hkey⟩ := List.mem_map.mp hmem
  obtain ⟨⟨k, v⟩, -, rfl⟩ := List.mem_map.mp he
  dsimp only at hkey
  split at hkey
  · exact h hkey.symm
  · contradiction

theorem get?_rename_new (h : new ∉ keys m) : get? new (rename old new m) = get? old m := by
  induction m with
  | nil => rfl
  | cons e r ih =>
    obtain ⟨k, v⟩ := e
    obtain ⟨hk, hr⟩ := not_or.mp (mt List.mem_cons.mpr h)
    rw [rename, List.map_cons, get?, get?]
    by_cases he : k = old
    · rw [if_pos he, if_pos rfl, if_pos he]
    · rw [if_neg he, if_neg (Ne.symm hk), if_neg he]
      exact ih hr

theorem mem_keys_of_rename (h : key ∈ keys (rename old new m)) (hn : key ≠ new) :
    key ∈ keys m ∧ key ≠ old := by
  obtain ⟨e, he, hkey⟩ := List.mem_map.mp h
  obtain ⟨⟨k, v⟩, hmem, rfl⟩ := List.mem_map.mp he
  dsimp only at hkey
  split at hkey
  · exact absurd hkey.symm hn
  · rename_i hk
    exact hkey ▸ ⟨List.mem_map_of_mem hmem, hk⟩

theorem forall_keys_rename {p : WideText → Prop} (ho : p old) (hn : p new) :
    (∀ key ∈ keys (rename old new m), p key) ↔ ∀ key ∈ keys m, p key := by
  simp only [keys, rename, List.map_map, List.forall_mem_map]
  apply forall₂_congr
  intro e _
  show p (if e.1 = old then new else e.1) ↔ p e.1
  split
  · rename_i he
    exact iff_of_true hn (he ▸ ho)
  · rfl

theorem filter_rename {before after : List WideText} (ho : old ∈ before) (hn : new ∈ after)
    (h : ∀ key ∈ keys m, key ≠ old → (key ∈ after ↔ key ∈ before)) :
    (rename old new m).filter (·.1 ∉ after) = m.filter (·.1 ∉ before) := by
  induction m with
  | nil => rfl
  | cons e r ih =>
    obtain ⟨k, v⟩ := e
    have hr := ih fun key hmem => h key (List.mem_cons_of_mem k hmem)
    rw [rename] at hr
    rw [rename, List.map_cons, List.filter_cons, List.filter_cons, hr]
    by_cases hk : k = old
    · simp [hk, hn, ho]
    · simp [hk, h k List.mem_cons_self hk]

theorem filter_ne_rename (ho : old ≠ key) (hn : new ≠ key) :
    (rename old new m).filter (·.1 ≠ key) = rename old new (m.filter (·.1 ≠ key)) := by
  rw [rename, List.filter_map, rename]
  congr 1
  apply List.filter_congr
  intro e _
  by_cases he : e.1 = old
  · simp [he, ho, hn]
  · simp [he]

end Json.Members

namespace PathField

variable {f g : PathField} {members : Members}

/-- No path is given under both of its keys. -/
def OneSpelling (members : Members) : Prop :=
  ∀ f : PathField, ofText f.usualKey ∈ Members.keys members → ofText f.name ∉ Members.keys members

def plainly (f : PathField) (members : Members) : Members :=
  members.rename (ofText f.usualKey) (ofText f.name)

theorem keys_ne (h : g ≠ f) : (ofText g.usualKey ≠ ofText f.usualKey ∧
    ofText g.usualKey ≠ ofText f.name) ∧ ofText g.name ≠ ofText f.usualKey ∧
      ofText g.name ≠ ofText f.name := by
  revert h
  cases f <;> cases g <;> decide

theorem usualKey_ne_name (f : PathField) : ofText f.usualKey ≠ ofText f.name := by
  cases f <;> decide

theorem OneSpelling.plainly (h : OneSpelling members) (f : PathField) :
    OneSpelling (f.plainly members) := by
  intro g husual hname
  by_cases hg : g = f
  · subst hg
    exact (Members.mem_keys_of_rename husual g.usualKey_ne_name).2 rfl
  · obtain ⟨⟨-, hu⟩, -, hn⟩ := keys_ne hg
    exact h g (Members.mem_keys_of_rename husual hu).1 (Members.mem_keys_of_rename hname hn).1

theorem taken?_plainly_of_ne (h : g ≠ f) : g.taken? (f.plainly members) = g.taken? members := by
  obtain ⟨⟨huu, hun⟩, hnu, hnn⟩ := keys_ne h
  rw [taken?, plainly, Members.get?_rename_of_ne huu hun, Members.get?_rename_of_ne hnu hnn, taken?]

theorem key_of_taken? {t : Text} {v : Json} (h : f.taken? members = some (t, v)) :
    t = f.usualKey ∨ t = f.name := by
  rw [taken?] at h
  split at h
  · cases h
    exact .inl rfl
  · obtain ⟨w, -, heq⟩ := Option.map_eq_some_iff.mp h
    cases heq
    exact .inr rfl

theorem taken?_of_usual (h : ofText f.usualKey ∈ Members.keys members) :
    ∃ v, f.taken? members = some (f.usualKey, v) := by
  obtain ⟨v, hv⟩ := Members.exists_get? h
  exact ⟨v, by rw [taken?, hv]⟩

theorem taken?_of_not_usual (h : ofText f.usualKey ∉ Members.keys members) :
    f.taken? members = (Members.get? (ofText f.name) members).map (f.name, ·) := by
  rw [taken?, Members.get?_of_not_mem h]

theorem taken?_plainly (h : OneSpelling members) :
    f.taken? (f.plainly members) = (f.taken? members).map fun e => (f.name, e.2) := by
  by_cases hu : ofText f.usualKey ∈ Members.keys members
  · obtain ⟨v, hv⟩ := Members.exists_get? hu
    rw [taken?, plainly, Members.get?_rename_old f.usualKey_ne_name, Members.get?_rename_new (h f hu),
      taken?, hv]
    rfl
  · rw [plainly, Members.rename_of_not_mem hu, taken?_of_not_usual hu, Option.map_map]
    rfl

theorem value_plainly (h : OneSpelling members) :
    (g.taken? (f.plainly members)).map Prod.snd = (g.taken? members).map Prod.snd := by
  by_cases hg : g = f
  · subst hg
    rw [taken?_plainly h, Option.map_map]
    rfl
  · rw [taken?_plainly_of_ne hg]

end PathField


namespace Config

variable {members : Members} {f : PathField} {c : Config}

theorem mem_takenKeys_plainly (h : PathField.OneSpelling members) {key : WideText}
    (hu : key ≠ ofText f.usualKey) (hn : key ≠ ofText f.name) :
    key ∈ takenKeys (f.plainly members) ↔ key ∈ takenKeys members := by
  simp only [mem_takenKeys_iff]
  constructor
  · rintro ⟨t, ⟨g, v, ht⟩, rfl⟩
    by_cases hg : g = f
    · subst hg
      rw [PathField.taken?_plainly h] at ht
      obtain ⟨e, -, heq⟩ := Option.map_eq_some_iff.mp ht
      cases heq
      exact absurd rfl hn
    · rw [PathField.taken?_plainly_of_ne hg] at ht
      exact ⟨t, ⟨g, v, ht⟩, rfl⟩
  · rintro ⟨t, ⟨g, v, ht⟩, rfl⟩
    by_cases hg : g = f
    · subst hg
      rcases PathField.key_of_taken? ht with rfl | rfl
      · exact absurd rfl hu
      · exact absurd rfl hn
    · exact ⟨t, ⟨g, v, (PathField.taken?_plainly_of_ne hg).trans ht⟩, rfl⟩

theorem leftOver_plainly (h : PathField.OneSpelling members) :
    leftOver (f.plainly members) = leftOver members := by
  by_cases hu : ofText f.usualKey ∈ Members.keys members
  · obtain ⟨v, ht⟩ := PathField.taken?_of_usual hu
    rw [leftOver_eq, leftOver_eq]
    apply Members.filter_rename
    · exact mem_takenKeys_iff.mpr ⟨f.usualKey, ⟨f, v, ht⟩, rfl⟩
    · refine mem_takenKeys_iff.mpr ⟨f.name, ⟨f, v, ?_⟩, rfl⟩
      rw [PathField.taken?_plainly h, ht]
      rfl
    · intro key hkey hne
      have hn : key ≠ ofText f.name := fun he => h f hu (he ▸ hkey)
      exact mem_takenKeys_plainly h hne hn
  · rw [PathField.plainly, Members.rename_of_not_mem hu]

theorem givenFields_plainly (h : PathField.OneSpelling members) :
    givenFields (f.plainly members) = givenFields members := by
  have hset (g : PathField) :
      (g.taken? (f.plainly members)).isSome = (g.taken? members).isSome := by
    simpa using congrArg Option.isSome (PathField.value_plainly h)
  simp only [givenFields, hset]

theorem besideParser_plainly : besideParser (f.plainly members) = f.plainly (besideParser members) := by
  apply Members.filter_ne_rename
  · cases f <;> decide
  · cases f <;> decide

theorem oneSpelling_besideParser (h : PathField.OneSpelling members) :
    PathField.OneSpelling (besideParser members) := by
  have hsub : (Members.keys (besideParser members)).Sublist (Members.keys members) :=
    List.Sublist.map _ List.filter_sublist
  exact fun g husual hname => h g (hsub.subset husual) (hsub.subset hname)

theorem validate_plainly (h : PathField.OneSpelling members) :
    validate (.ofJson (.obj (f.plainly members))) = .ok c ↔
      validate (.ofJson (.obj members)) = .ok c := by
  have hrest := oneSpelling_besideParser h
  have hparser : Members.get? (ofText parserKey) (f.plainly members) =
      Members.get? (ofText parserKey) members := by
    apply Members.get?_rename_of_ne
    · cases f <;> decide
    · cases f <;> decide
  have hplain : (∀ key ∈ Members.keys (f.plainly (besideParser members)), (WideText.toText? key).isSome) ↔
      ∀ key ∈ Members.keys (besideParser members), (WideText.toText? key).isSome := by
    apply Members.forall_keys_rename
    · simp [WideText.toText?_ofText]
    · simp [WideText.toText?_ofText]
  rw [ofJson_obj, ofJson_obj, hparser, besideParser_plainly]
  simp only [validate_eq_ok_iff, hplain, PathField.check_eq_ok_iff, PathField.value_plainly hrest,
    givenFields_plainly hrest, leftOver_plainly hrest]

/-- The paths of some fields come under their plain names. -/
def renamed (fields : List PathField) (members : Members) : Members :=
  fields.foldr PathField.plainly members

theorem oneSpelling_renamed (h : PathField.OneSpelling members) (fields : List PathField) :
    PathField.OneSpelling (renamed fields members) := by
  induction fields with
  | nil => exact h
  | cons f fields ih => exact ih.plainly f

theorem validate_renamed (h : PathField.OneSpelling members) (fields : List PathField) :
    validate (.ofJson (.obj (renamed fields members))) = .ok c ↔
      validate (.ofJson (.obj members)) = .ok c := by
  induction fields with
  | nil => rfl
  | cons f fields ih =>
    rw [← ih]
    exact validate_plainly (oneSpelling_renamed h fields)

/-- A configuration uses each entry of its object once. Where no path is given twice, its parser is
planned alike under either key of the paths. -/
theorem entries_used_once (hn : (Members.keys members).Nodup)
    (hc : validate (.ofJson (.obj members)) = .ok c) : Keeps members c ∧
      (PathField.OneSpelling members → ∀ fields,
        validate (.ofJson (.obj (renamed fields members))) = .ok c ∧
        ∀ (w : Workplace) (registry : Registry) (call : Call),
          Call.plan w registry { call with config := .ofJson (.obj (renamed fields members)) } =
            Call.plan w registry { call with config := .ofJson (.obj members) }) := by
  refine ⟨keeps_of_validate hn hc, fun h fields => ?_⟩
  have hrenamed := (validate_renamed h fields).mpr hc
  refine ⟨hrenamed, fun w registry call => ?_⟩
  rw [Call.plan, Call.plan, hrenamed, hc]

def doubledPath : Members := [(.ofString "customSwiftCLIPath", .str (.ofString "b")),
  (.ofString "depth", .int 1), (.ofString "custom_swift_cli_path", .str (.ofString "a")),
  (.ofString "parser", .str (.ofString " swift "))]

def doubledPathConfig : Config := ⟨.ofString "swift", some (.ofString "b"), none, none,
  [parserKey, PathField.customSwiftCli.name],
  [(.ofString "depth", .int 1), (.ofString "custom_swift_cli_path", .str (.ofString "a"))]⟩

def twoPaths : Members := [(.ofString "xcodeprojPath", .null),
  (.ofString "parser", .str (.ofString "compose")), (.ofString "gradle_wrapper_path", .str (.ofString "g"))]

def twoPathsConfig : Config := ⟨.ofString "compose", none, none, some (.ofString "g"),
  [parserKey, PathField.xcodeproj.name, PathField.gradleWrapper.name], []⟩

theorem doubled_path_used_once : Keeps doubledPath doubledPathConfig ∧
    validate (.ofJson (.obj (renamed PathField.all twoPaths))) = .ok twoPathsConfig := by
  have hdoubled : (Members.keys doubledPath).Nodup := by decide
  have htwo : (Members.keys twoPaths).Nodup := by decide
  have hone : PathField.OneSpelling twoPaths := by
    intro f
    cases f <;> decide
  exact ⟨(entries_used_once hdoubled rfl).1, ((entries_used_once htwo rfl).2 hone _).1⟩

end Config

end ParserRelay
