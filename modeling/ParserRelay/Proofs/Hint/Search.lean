import ParserRelay.Proofs.Hint.Language
import ParserRelay.Registry.Descriptor
/-!
# The search for hints

The test of an entry finds exactly the texts of the entry at the start of what it is given, and the
search tries it everywhere. So the hint is that of the first entry that is told.
-/
namespace ParserRelay.Hint
open WideText (ofString ofText)

variable {p : Char} {c : CodePoint} {phrase : String} {r t w : WideText}

section Letters

theorem fold_ascii : ∀ n < 128, fold (.char (.ofNat n)) = (Char.ofNat n).toLower.toNat ∧
    (Char.ofNat n).toLower.toNat < 128 ∧ (Char.ofNat n).toUpper.toNat < 128 := by
  decide

theorem fold_of_ascii (hp : p.toNat < 128) : fold (.char p) = p.toLower.toNat ∧
    p.toLower.toNat < 128 ∧ p.toUpper.toNat < 128 := by
  simpa using fold_ascii p.toNat hp

theorem Variant.fold_eq (h : Variant p c) (hp : p.toNat < 128) : fold (.char p) = fold c := by
  obtain ⟨hfold, hlower, hupper⟩ := fold_of_ascii hp
  rw [hfold]
  cases h with
  | upper => rw [(fold_of_ascii hupper).1, Char.toLower_toUpper_eq_toLower]
  | lower => rw [(fold_of_ascii hlower).1, Char.toLower_toLower_eq_toLower]
  | dotted h | dotless h | kelvin h | long h =>
    rw [h]
    rfl

theorem fold_of_not_ascii (hc : ¬ c.toNat < 128) :
    (c = .char '\u0130' ∨ c = .char '\u0131') ∧ fold c = 'i'.toNat ∨
    c = .char '\u212A' ∧ fold c = 'k'.toNat ∨ c = .char '\u017F' ∧ fold c = 's'.toNat ∨
    fold c = c.toNat := by
  have hchar {q : Char} (h : c.toNat = q.toNat) (hq : q.toNat < 0xD800) : c = .char q := by
    cases c with
    | char d => rw [Char.toNat_inj.mp h]
    | lone s =>
      simp only [CodePoint.toNat] at h
      omega
  unfold fold
  simp only
  split_ifs with hi hk hs ha
  · exact .inl ⟨hi.imp (hchar · (by decide)) (hchar · (by decide)), rfl⟩
  · exact .inr (.inl ⟨hchar hk (by decide), rfl⟩)
  · exact .inr (.inr (.inl ⟨hchar hs (by decide), rfl⟩))
  · have hz : 'Z'.toNat = 90 := rfl
    omega
  · exact .inr (.inr (.inr rfl))

theorem variant_of_fold (hp : p.toNat < 128) (h : fold (.char p) = fold c) : Variant p c := by
  obtain ⟨hfold, hlower, -⟩ := fold_of_ascii hp
  rw [hfold] at h
  by_cases hc : c.toNat < 128
  · cases c with
    | char q =>
      rw [(fold_of_ascii hc).1] at h
      exact variant_of_toLower (Char.toNat_inj.mp h)
    | lone s =>
      simp only [CodePoint.toNat] at hc
      omega
  · rcases fold_of_not_ascii hc with ⟨rfl | rfl, hi⟩ | ⟨rfl, hk⟩ | ⟨rfl, hs⟩ | hn
    · exact .dotted (Char.toNat_inj.mp (h.trans hi))
    · exact .dotless (Char.toNat_inj.mp (h.trans hi))
    · exact .kelvin (Char.toNat_inj.mp (h.trans hk))
    · exact .long (Char.toNat_inj.mp (h.trans hs))
    · omega

theorem fold_eq_iff_variant (hp : p.toNat < 128) : fold (.char p) = fold c ↔ Variant p c :=
  ⟨variant_of_fold hp, fun h => h.fold_eq hp⟩

end Letters

section Phrases

/-- The letters of the table are all of ASCII, where the folded codes tell them apart. -/
def ascii (phrase : String) : Bool := phrase.toList.all fun p => p.toNat < 128

theorem phrase?_ofText_iff {ps : Text} (hps : ∀ p ∈ ps, p.toNat < 128) :
    phrase? (ofText ps) t = some r ↔ ∃ w, List.Forall₂ Variant ps w ∧ t = w ++ r := by
  induction ps generalizing t with
  | nil => simp [phrase?]
  | cons p ps ih =>
    have hp : p.toNat < 128 := hps p List.mem_cons_self
    have hrest : ∀ q ∈ ps, q.toNat < 128 := fun q hq => hps q (List.mem_cons_of_mem p hq)
    cases t with
    | nil => simp [phrase?, List.forall₂_cons_left_iff]
    | cons c t =>
      rw [WideText.ofText_cons, phrase?, Option.ite_none_right_eq_some, fold_eq_iff_variant hp,
        ih hrest]
      constructor
      · rintro ⟨hc, w, hw, rfl⟩
        exact ⟨c :: w, .cons hc hw, rfl⟩
      · rintro ⟨_, hw, h⟩
        obtain ⟨d, w, hd, htail, rfl⟩ := List.forall₂_cons_left_iff.mp hw
        obtain ⟨rfl, rfl⟩ := List.cons.inj h
        exact ⟨hd, w, htail, rfl⟩

theorem phrase?_iff (hp : ascii phrase) :
    phrase? (ofString phrase) t = some r ↔ ∃ w, Spells phrase w ∧ t = w ++ r :=
  phrase?_ofText_iff (by simpa [ascii] using hp)

theorem startsWith_iff (hp : ascii phrase) :
    startsWith (ofString phrase) t ↔ ∃ w, Spells phrase w ∧ w <+: t := by
  rw [startsWith, Option.isSome_iff_exists]
  simp only [phrase?_iff hp]
  constructor
  · rintro ⟨r, w, hw, rfl⟩
    exact ⟨w, hw, List.prefix_append w r⟩
  · rintro ⟨w, hw, r, rfl⟩
    exact ⟨r, w, hw, rfl⟩

theorem anyPhrase_iff {ps : List String} (hps : ps.all ascii) :
    anyPhrase ps t ↔ ∃ w, (∃ p ∈ ps, Spells p w) ∧ w <+: t := by
  have hp {p : String} (h : p ∈ ps) : startsWith (ofString p) t ↔ ∃ w, Spells p w ∧ w <+: t :=
    startsWith_iff (List.all_eq_true.mp hps p h)
  rw [anyPhrase, List.any_eq_true]
  constructor
  · rintro ⟨p, hm, h⟩
    obtain ⟨w, hw, h⟩ := (hp hm).mp h
    exact ⟨w, ⟨p, hm, hw⟩, h⟩
  · rintro ⟨w, ⟨p, hm, hw⟩, h⟩
    exact ⟨p, hm, (hp hm).mpr ⟨w, hw, h⟩⟩

theorem behind_iff {test : WideText → Bool} {P : WideText → Prop} (hp : ascii phrase)
    (htest : ∀ r, test r ↔ ∃ w, P w ∧ w <+: r) :
    (phrase? (ofString phrase) t).any test ↔ ∃ u w, Spells phrase u ∧ P w ∧ u ++ w <+: t := by
  simp only [Option.any_eq_true, phrase?_iff hp, htest]
  constructor
  · rintro ⟨r, ⟨u, hu, rfl⟩, w, hw, h⟩
    exact ⟨u, w, hu, hw, (List.prefix_append_right_inj u).mpr h⟩
  · rintro ⟨u, w, hu, hw, r, rfl⟩
    exact ⟨w ++ r, ⟨u, hu, List.append_assoc u w r⟩, w, hw, List.prefix_append w r⟩

end Phrases

section Search

theorem somewhere_iff {test : WideText → Bool} : somewhere test t ↔ ∃ s, s <:+ t ∧ test s := by
  induction t with
  | nil => simp [somewhere]
  | cons c t ih =>
    rw [somewhere, Bool.or_eq_true, ih]
    simp only [List.suffix_cons_iff]
    constructor
    · rintro (h | ⟨s, hs, h⟩)
      · exact ⟨c :: t, .inl rfl, h⟩
      · exact ⟨s, .inr hs, h⟩
    · rintro ⟨s, rfl | hs, h⟩
      · exact .inl h
      · exact .inr ⟨s, hs, h⟩

theorem endsWord_eq (t : WideText) : endsWord t = !beginsInWord t := by
  cases t <;> rfl

theorem laterInLine_iff {p : WideText} {before : CodePoint} : laterInLine p before t ↔
    ∃ gap s, t = gap ++ s ∧ startsWith p s ∧ .char '\n' ∉ gap ∧ ¬ endsInWord (before :: gap) := by
  -- The character before is general, since a step puts one of the text in its place.
  induction t generalizing before with
  | nil =>
    simp only [laterInLine, Bool.and_eq_true, Bool.not_eq_true', ← Bool.not_eq_true,
      List.nil_eq_append_iff]
    constructor
    · rintro ⟨hb, h⟩
      exact ⟨[], [], ⟨rfl, rfl⟩, h, by simp, hb⟩
    · rintro ⟨_, _, ⟨rfl, rfl⟩, h, -, hb⟩
      exact ⟨hb, h⟩
  | cons c t ih =>
    simp only [laterInLine, Bool.or_eq_true, Bool.and_eq_true, Bool.not_eq_true',
      ← Bool.not_eq_true, decide_eq_true_eq]
    rw [ih]
    constructor
    · rintro (⟨hb, h⟩ | ⟨hc, gap, s, rfl, h, hgap, hlast⟩)
      · exact ⟨[], c :: t, rfl, h, by simp, hb⟩
      · refine ⟨c :: gap, s, rfl, h, ?_, hlast⟩
        exact mt List.mem_cons.mp (not_or.mpr ⟨Ne.symm hc, hgap⟩)
    · rintro ⟨gap, s, ht, h, hgap, hlast⟩
      cases gap with
      | nil => exact .inl ⟨hlast, ht ▸ h⟩
      | cons d gap =>
        obtain ⟨rfl, rfl⟩ := List.cons.inj ht
        obtain ⟨hc, hgap⟩ := not_or.mp (mt List.mem_cons.mpr hgap)
        exact .inr ⟨Ne.symm hc, gap, s, rfl, h, hgap, hlast⟩

end Search

section Entries

variable {i : ℕ}

theorem missing_iff : (endsWord t && laterInLine (ofString "not found") (.char 'k') t) ↔
    ∃ w, (∃ gap missing, Spells "not found" missing ∧ .char '\n' ∉ gap ∧
      ¬ beginsInWord (gap ++ missing) ∧ ¬ endsInWord (.char 'k' :: gap) ∧ w = gap ++ missing) ∧
      w <+: t := by
  rw [Bool.and_eq_true, endsWord_eq, Bool.not_eq_true', ← Bool.not_eq_true, laterInLine_iff]
  have hne {missing : WideText} (h : Spells "not found" missing) (gap : WideText) :
      gap ++ missing ≠ [] := by simp [h.ne_nil (by decide)]
  constructor
  · rintro ⟨hbegin, gap, s, rfl, hs, hgap, hlast⟩
    obtain ⟨missing, hmissing, r, rfl⟩ := (startsWith_iff (by decide)).mp hs
    rw [← List.append_assoc, beginsInWord_append (hne hmissing gap)] at hbegin
    exact ⟨gap ++ missing, ⟨gap, missing, hmissing, hgap, hbegin, hlast, rfl⟩, r, by simp⟩
  · rintro ⟨_, ⟨gap, missing, hmissing, hgap, hbegin, hlast, rfl⟩, r, rfl⟩
    refine ⟨?_, gap, missing ++ r, by simp, ?_, hgap, hlast⟩
    · rwa [beginsInWord_append (hne hmissing gap)]
    · exact (startsWith_iff (by decide)).mpr ⟨missing, hmissing, List.prefix_append missing r⟩

theorem missingTask_iff : missingTask t ↔ Opens 0 t := by
  have hany : missingTask t = (phrase? (ofString "task") t).any fun r =>
      endsWord r && laterInLine (ofString "not found") (.char 'k') r := by
    unfold missingTask
    cases phrase? (ofString "task") t <;> rfl
  rw [hany, behind_iff (by decide) fun _ => missing_iff]
  constructor
  · rintro ⟨task, _, htask, ⟨gap, missing, hmissing, hgap, hbegin, hlast, rfl⟩, h⟩
    rw [← endsInWord_task htask] at hlast
    rw [← List.append_assoc] at h
    exact ⟨_, .missingTask htask hmissing hgap hbegin hlast, h⟩
  · rintro ⟨_, h, hprefix⟩
    cases h with
    | phrase hp => cases hp
    | @missingTask task gap missing htask hmissing hgap hbegin hlast =>
      rw [endsInWord_task htask] at hlast
      rw [List.append_assoc] at hprefix
      exact ⟨task, _, htask, ⟨gap, missing, hmissing, hgap, hbegin, hlast, rfl⟩, hprefix⟩

theorem requiredJava_iff : requiredJava t ↔
    ∃ w d, Spells "requires Java " w ∧ Text.isDigit d ∧ w ++ [d] <+: t := by
  have hdigit (r : WideText) : r.head?.any Text.isDigit ↔
      ∃ w, (∃ d, Text.isDigit d ∧ w = [d]) ∧ w <+: r := by
    cases r with
    | nil => simp
    | cons c r => simp
  have hany : requiredJava t =
      (phrase? (ofString "requires Java ") t).any fun r => r.head?.any Text.isDigit := by
    unfold requiredJava
    rcases phrase? (ofString "requires Java ") t with _ | _ | _ <;> rfl
  rw [hany, behind_iff (by decide) hdigit]
  constructor
  · rintro ⟨u, _, hu, ⟨d, hd, rfl⟩, h⟩
    exact ⟨u, d, hu, hd, h⟩
  · rintro ⟨u, d, hu, hd, h⟩
    exact ⟨u, [d], hu, ⟨d, hd, rfl⟩, h⟩

theorem coordinate_iff : coordinate t ↔
    ∃ name, name ≠ [] ∧ (∀ c ∈ name, nameChar c) ∧ name ++ [.char ':'] <+: t := by
  have hpart : (fun c : CodePoint => Text.isWordChar c || c = .char '.' || c = .char '-') =
    nameChar := rfl
  simp only [coordinate, Bool.and_eq_true, decide_eq_true_eq, hpart]
  constructor
  · rintro ⟨hfirst, hcolon⟩
    obtain ⟨r, hr⟩ := List.head?_eq_some_iff.mp hcolon
    refine ⟨t.takeWhile nameChar, ?_, fun c hc => List.mem_takeWhile_imp hc, r, ?_⟩
    · cases t with
      | nil => cases hfirst
      | cons c t => simp [show nameChar c = true from hfirst]
    · rw [List.append_assoc, List.singleton_append, ← hr, List.takeWhile_append_dropWhile]
  · rintro ⟨name, hne, hname, r, rfl⟩
    obtain ⟨c, name, rfl⟩ := List.exists_cons_of_ne_nil hne
    refine ⟨hname c List.mem_cons_self, ?_⟩
    rw [List.append_assoc, List.dropWhile_append_of_pos hname]
    rfl

theorem subject_iff :
    (anyPhrase kinds t || coordinate t || (phrase? (ofString "all ") t).any (anyPhrase kinds)) ↔
    ∃ w, ((∃ all ∈ ["", "all "], ∃ kind ∈ kinds, Spells (all ++ kind) w) ∨
      ∃ name, name ≠ [] ∧ (∀ c ∈ name, nameChar c) ∧ w = name ++ [.char ':']) ∧ w <+: t := by
  have hkinds (r : WideText) : anyPhrase kinds r ↔ ∃ w, (∃ p ∈ kinds, Spells p w) ∧ w <+: r :=
    anyPhrase_iff (by decide)
  rw [Bool.or_eq_true, Bool.or_eq_true, hkinds, coordinate_iff, behind_iff (by decide) hkinds]
  constructor
  · rintro ((⟨w, ⟨kind, hk, hw⟩, h⟩ | ⟨name, hne, hname, h⟩) | ⟨u, w, hu, ⟨kind, hk, hw⟩, h⟩)
    · exact ⟨w, .inl ⟨"", by simp, kind, hk, by simpa using hw⟩, h⟩
    · exact ⟨_, .inr ⟨name, hne, hname, rfl⟩, h⟩
    · exact ⟨u ++ w, .inl ⟨"all ", by simp, kind, hk, spells_append_iff.mpr ⟨u, w, hu, hw, rfl⟩⟩, h⟩
  · rintro ⟨w, ⟨all, hall, kind, hk, hw⟩ | ⟨name, hne, hname, rfl⟩, h⟩
    · simp only [List.mem_cons, List.not_mem_nil, or_false] at hall
      rcases hall with rfl | rfl
      · exact .inl (.inl ⟨w, ⟨kind, hk, by simpa using hw⟩, h⟩)
      · obtain ⟨u, v, hu, hv, rfl⟩ := spells_append_iff.mp hw
        exact .inr ⟨u, v, hu, ⟨kind, hk, hv⟩, h⟩
    · exact .inl (.inr ⟨name, hne, hname, h⟩)

theorem unresolved_iff : unresolved t ↔ Opens 3 t := by
  have hany : unresolved t = (phrase? (ofString "Could not resolve ") t).any fun r =>
      anyPhrase kinds r || coordinate r || (phrase? (ofString "all ") r).any (anyPhrase kinds) := by
    unfold unresolved
    rcases phrase? (ofString "Could not resolve ") t with _ | r
    · rfl
    · rcases hall : phrase? (ofString "all ") r <;> simp [hall, kinds]
  rw [hany, behind_iff (by decide) fun _ => subject_iff]
  constructor
  · rintro ⟨u, _, hu, ⟨all, hall, kind, hk, hw⟩ | ⟨name, hne, hname, rfl⟩, h⟩
    · refine ⟨_, .unresolved hall hk ?_, h⟩
      rw [String.append_assoc]
      exact spells_append_iff.mpr ⟨_, _, hu, hw, rfl⟩
    · rw [← List.append_assoc] at h
      exact ⟨_, .coordinate hu hne hname, h⟩
  · rintro ⟨_, h, hprefix⟩
    cases h with
    | phrase hp => cases hp
    | unresolved hall hk hw =>
      rw [String.append_assoc] at hw
      obtain ⟨u, v, hu, hv, rfl⟩ := spells_append_iff.mp hw
      exact ⟨u, v, hu, .inl ⟨_, hall, _, hk, hv⟩, hprefix⟩
    | @coordinate u name hu hne hname =>
      rw [List.append_assoc] at hprefix
      exact ⟨u, _, hu, .inr ⟨name, hne, hname, rfl⟩, hprefix⟩

theorem phrases_iff (i : ℕ) (hi : i ∉ [0, 2, 3]) (hp : (phrases i).all ascii) :
    anyPhrase (phrases i) t ↔ Opens i t := by
  rw [anyPhrase_iff hp]
  constructor
  · rintro ⟨w, ⟨p, hp, hw⟩, h⟩
    exact ⟨w, .phrase hp hw, h⟩
  · rintro ⟨w, hw, h⟩
    exact ⟨w, hw.plain hi, h⟩

theorem unsupportedJava_iff : (anyPhrase (phrases 2) t || requiredJava t) ↔ Opens 2 t := by
  rw [Bool.or_eq_true, anyPhrase_iff (by decide), requiredJava_iff]
  constructor
  · rintro (⟨w, ⟨p, hp, hw⟩, h⟩ | ⟨w, d, hw, hd, h⟩)
    · exact ⟨w, .phrase hp hw, h⟩
    · exact ⟨w ++ [d], .requiredJava hw hd, h⟩
  · rintro ⟨_, h, hprefix⟩
    cases h with
    | phrase hp hw => exact .inl ⟨_, ⟨_, hp, hw⟩, hprefix⟩
    | requiredJava hw hd => exact .inr ⟨_, _, hw, hd, hprefix⟩

/-- Each test of the table is passed by what begins with a text of its entry. -/
theorem test_iff_opens {e : Entry} (he : composeTable[i]? = some e) : e.test t ↔ Opens i t := by
  match i, he with
  | 0, rfl => exact missingTask_iff
  | 1, rfl => exact phrases_iff 1 (by decide) (by decide)
  | 2, rfl => exact unsupportedJava_iff
  | 3, rfl => exact unresolved_iff
  | 4, rfl => exact phrases_iff 4 (by decide) (by decide)
  | 5, rfl => exact phrases_iff 5 (by decide) (by decide)
  | n + 6, he => cases he

end Entries

section Table

variable {i j : ℕ} {e : Entry} {s : WideText}

/-- The place of the first entry that is found, or the length of the table. -/
def place (t : WideText) : ℕ := composeTable.findIdx fun e => somewhere e.test t

theorem somewhere_iff_tells (he : composeTable[i]? = some e) : somewhere e.test t ↔ Tells i t := by
  rw [somewhere_iff, tells_iff_opens]
  simp only [test_iff_opens he]

theorem tells_place (h : place t < composeTable.length) : Tells (place t) t := by
  apply (somewhere_iff_tells (List.getElem?_eq_getElem h)).mp
  exact List.findIdx_getElem (w := h)

theorem not_tells_of_lt_place (h : j < place t) : ¬ Tells j t := by
  intro hj
  rw [← somewhere_iff_tells (List.getElem?_eq_getElem hj.lt)] at hj
  simp [List.not_of_lt_findIdx h] at hj

theorem place_eq (h : Tells i t) (hfirst : ∀ j < i, ¬ Tells j t) : place t = i := by
  rcases Nat.lt_trichotomy (place t) i with hlt | heq | hgt
  · exact absurd (tells_place (hlt.trans h.lt)) (hfirst _ hlt)
  · exact heq
  · exact absurd h (not_tells_of_lt_place hgt)

theorem place_le_length (t : WideText) : place t ≤ composeTable.length := List.findIdx_le_length

theorem place_anti (h : ∀ i, Tells i s → Tells i t) : place t ≤ place s := by
  by_contra hlt
  have hs : place s < place t := Nat.lt_of_not_le hlt
  exact not_tells_of_lt_place hs (h _ (tells_place (hs.trans_le (place_le_length t))))

theorem hint_eq (t : WideText) :
    Descriptor.compose.hint t = composeTable[place t]?.map fun e => ofText e.advice := by
  have hcompose : compose? t = composeTable[place t]?.map Entry.advice := by
    rw [compose?, List.find?_eq_getElem?_findIdx]
    rfl
  have hempty : compose? [] = none := by decide
  show (if t.isEmpty then none else (compose? t).map ofText) = _
  rw [← Function.comp_def, ← Option.map_map, ← hcompose]
  cases t with
  | nil => rw [hempty]; rfl
  | cons c t => rfl

theorem hint_congr (h : place s = place t) :
    Descriptor.compose.hint s = Descriptor.compose.hint t := by
  rw [hint_eq, hint_eq, h]

theorem hint_eq_none_iff : Descriptor.compose.hint t = none ↔ ∀ i, ¬ Tells i t := by
  rw [hint_eq, Option.map_eq_none_iff, List.getElem?_eq_none_iff]
  constructor
  · intro h i hi
    exact not_tells_of_lt_place (hi.lt.trans_le h) hi
  · intro h
    by_contra hlt
    exact h _ (tells_place (Nat.lt_of_not_le hlt))

/-- The hint is that of the first entry of which a text stands somewhere in the error text; there
is none without such an entry. -/
theorem hint_of_first_entry (t : WideText) :
    (∀ a, Descriptor.compose.hint t = some a ↔ ∃ i e, composeTable[i]? = some e ∧
      a = ofText e.advice ∧ Tells i t ∧ ∀ j < i, ¬ Tells j t) ∧
    (Descriptor.compose.hint t = none ↔ ∀ i, ¬ Tells i t) := by
  refine ⟨fun a => ?_, hint_eq_none_iff⟩
  rw [hint_eq, Option.map_eq_some_iff]
  constructor
  · rintro ⟨e, he, rfl⟩
    obtain ⟨h, -⟩ := List.getElem?_eq_some_iff.mp he
    exact ⟨place t, e, he, rfl, tells_place h, fun _ => not_tells_of_lt_place⟩
  · rintro ⟨i, e, he, rfl, hi, hfirst⟩
    exact ⟨e, place_eq hi hfirst ▸ he, rfl⟩

end Table
end ParserRelay.Hint
