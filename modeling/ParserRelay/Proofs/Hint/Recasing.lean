import ParserRelay.Proofs.Hint.Search
/-!
# Hints and the case of letters

The case of the ASCII letters of an error text does not matter. What the table looks for stays what
it looks for when such letters change their case, also beside the other variants of letters.
-/
namespace ParserRelay.Hint
open WideText (ofString)

/-- The same code point, or another case of the same letter of ASCII. -/
inductive Recased : CodePoint → CodePoint → Prop
  | same (c : CodePoint) : Recased c c
  | letter {x y : Char} : x.isAlpha → y.isAlpha → x.toLower = y.toLower →
      Recased (.char x) (.char y)

theorem recased_char_iff {x y : Char} : Recased (.char x) (.char y) ↔
    x = y ∨ x.isAlpha ∧ y.isAlpha ∧ x.toLower = y.toLower := by
  constructor
  · intro h
    cases h with
    | same => exact .inl rfl
    | letter hx hy hxy => exact .inr ⟨hx, hy, hxy⟩
  · intro h
    rcases h with rfl | ⟨hx, hy, hxy⟩
    · exact .same _
    · exact .letter hx hy hxy

theorem recased_lone_iff {h k : Surrogate} : Recased (.lone h) (.lone k) ↔ h = k := by
  constructor
  · intro hr
    cases hr
    rfl
  · rintro rfl
    exact .same _

instance : (c d : CodePoint) → Decidable (Recased c d)
  | .char _, .char _ => decidable_of_iff _ recased_char_iff.symm
  | .lone _, .lone _ => decidable_of_iff _ recased_lone_iff.symm
  | .char _, .lone _ => .isFalse nofun
  | .lone _, .char _ => .isFalse nofun

variable {i : ℕ} {p : Char} {c d : CodePoint} {phrase : String} {s t u w : WideText}

section Letters

theorem Recased.symm (h : Recased c d) : Recased d c := by
  cases h with
  | same => exact .same c
  | letter hx hy hxy => exact .letter hy hx hxy.symm

theorem Recased.congr {f : CodePoint → Bool} {b : Bool} (h : Recased c d)
    (hf : ∀ x : Char, x.isAlpha → f (.char x) = b) : f c = f d := by
  cases h with
  | same => rfl
  | letter hx hy => rw [hf _ hx, hf _ hy]

theorem Recased.isWordChar (h : Recased c d) : Text.isWordChar c = Text.isWordChar d := by
  apply h.congr
  intro x hx
  have hword : Text.isWordChar x = true :=
    Text.isWordChar_of_isAlphanum (by simp [Char.isAlphanum, hx])
  exact hword

theorem ascii_of_isAlpha {x : Char} (h : x.isAlpha) : x.toNat < 128 := by
  simp only [Char.isAlpha, Char.isUpper, Char.isLower, Bool.or_eq_true, Bool.and_eq_true,
    decide_eq_true_eq, ge_iff_le, UInt32.le_iff_toNat_le] at h
  have hz : 'z'.val.toNat = 122 := rfl
  have hZ : 'Z'.val.toNat = 90 := rfl
  have hx : x.toNat = x.val.toNat := rfl
  omega

theorem letters_no_digits : ∀ n < 128, (Char.ofNat n).isAlpha →
    Text.isDigit (CodePoint.char (.ofNat n)) = false := by
  decide +kernel

theorem Recased.isDigit (h : Recased c d) : Text.isDigit c = Text.isDigit d := by
  apply h.congr
  intro x hx
  simpa [hx] using letters_no_digits x.toNat (ascii_of_isAlpha hx)

theorem Recased.eq_char_iff {x : Char} (h : Recased c d) (hx : ¬ x.isAlpha) :
    c = .char x ↔ d = .char x := by
  have hne (y : Char) (hy : y.isAlpha) : decide (CodePoint.char y = .char x) = false :=
    decide_eq_false fun he => hx (CodePoint.char.inj he ▸ hy)
  simpa using h.congr (f := fun e => e = .char x) hne

theorem Recased.nameChar (h : Recased c d) : nameChar c = nameChar d := by
  have hdot : c = .char '.' ↔ d = .char '.' := h.eq_char_iff (by decide)
  have hhyphen : c = .char '-' ↔ d = .char '-' := h.eq_char_iff (by decide)
  simp only [Hint.nameChar, h.isWordChar, hdot, hhyphen]

theorem Variant.toLower_eq {x : Char} (h : Variant p (.char x)) (hx : x.isAlpha) :
    p.toLower = x.toLower := by
  generalize hc : CodePoint.char x = c at h
  cases h with
  | upper => rw [CodePoint.char.inj hc, Char.toLower_toUpper_eq_toLower]
  | lower => rw [CodePoint.char.inj hc, Char.toLower_toLower_eq_toLower]
  | _ =>
    rw [CodePoint.char.inj hc] at hx
    exact absurd hx (by decide)

theorem Variant.recased (h : Variant p c) (hcd : Recased c d) : Variant p d := by
  cases hcd with
  | same => exact h
  | letter hx _ hxy => exact variant_of_toLower ((h.toLower_eq hx).trans hxy)

end Letters

section Texts

theorem Spells.recased (h : Spells phrase t) (htu : List.Forall₂ Recased t u) :
    Spells phrase u := by
  unfold Spells at h ⊢
  generalize phrase.toList = ps at h ⊢
  induction h generalizing u with
  | nil =>
    rw [List.forall₂_nil_left_iff.mp htu]
    exact .nil
  | cons hv _ ih =>
    obtain ⟨d, v, hd, hv', rfl⟩ := List.forall₂_cons_left_iff.mp htu
    exact .cons (hv.recased hd) (ih hv')

theorem beginsInWord_recased (h : List.Forall₂ Recased t u) : beginsInWord t = beginsInWord u := by
  cases h with
  | nil => rfl
  | cons hc _ => exact hc.isWordChar

theorem endsInWord_recased (h : List.Forall₂ Recased t u) : endsInWord t = endsInWord u := by
  rw [endsInWord, endsInWord, List.getLast?_eq_head?_reverse, List.getLast?_eq_head?_reverse]
  exact beginsInWord_recased (List.forall₂_reverse_iff.mpr h)

theorem forall_mem_recased {P : CodePoint → Prop} (hP : ∀ c d, Recased c d → P c → P d)
    (h : List.Forall₂ Recased t u) (ht : ∀ c ∈ t, P c) : ∀ d ∈ u, P d := by
  induction h with
  | nil => simp
  | cons hcd _ ih =>
    rw [List.forall_mem_cons] at ht ⊢
    exact ⟨hP _ _ hcd ht.1, ih ht.2⟩

theorem Telling.recased (h : Telling i w) (hwu : List.Forall₂ Recased w u) : Telling i u := by
  cases h with
  | @missingTask task gap missing htask hmissing hgap hbegin hend =>
    obtain ⟨_, missing', h, hm, rfl⟩ := forall₂_append_iff.mp hwu
    obtain ⟨task', gap', ht, hg, rfl⟩ := forall₂_append_iff.mp h
    rw [beginsInWord_recased (forall₂_append_iff.mpr ⟨gap', missing', hg, hm, rfl⟩)] at hbegin
    rw [endsInWord_recased h] at hend
    have hstays (c d : CodePoint) (hcd : Recased c d) (hc : c ≠ .char '\n') : d ≠ .char '\n' :=
      mt (hcd.eq_char_iff (by decide)).mpr hc
    have hline : ∀ d ∈ gap', d ≠ .char '\n' :=
      forall_mem_recased hstays hg fun c hc hn => hgap (hn ▸ hc)
    exact .missingTask (htask.recased ht) (hmissing.recased hm) (fun hn => hline _ hn rfl)
      hbegin hend
  | phrase hp hw => exact .phrase hp (hw.recased hwu)
  | requiredJava hw hd =>
    obtain ⟨_, _, hv, h, rfl⟩ := forall₂_append_iff.mp hwu
    obtain ⟨e, _, he, hnil, rfl⟩ := List.forall₂_cons_left_iff.mp h
    rw [List.forall₂_nil_left_iff.mp hnil]
    exact .requiredJava (hw.recased hv) (he.isDigit ▸ hd)
  | unresolved hall hkind hw => exact .unresolved hall hkind (hw.recased hwu)
  | coordinate hw hne hname =>
    obtain ⟨_, _, h, hlast, rfl⟩ := forall₂_append_iff.mp hwu
    obtain ⟨_, name, hv, hn, rfl⟩ := forall₂_append_iff.mp h
    obtain ⟨e, _, he, hnil, rfl⟩ := List.forall₂_cons_left_iff.mp hlast
    rw [List.forall₂_nil_left_iff.mp hnil, (he.eq_char_iff (by decide)).mp rfl]
    apply Telling.coordinate (hw.recased hv)
    · rintro rfl
      exact hne (List.forall₂_nil_right_iff.mp hn)
    · exact forall_mem_recased (fun c d hcd hc => hcd.nameChar ▸ hc) hn hname

theorem Tells.recased (h : Tells i s) (hst : List.Forall₂ Recased s t) : Tells i t := by
  obtain ⟨w, hw, before, after, rfl⟩ := h
  obtain ⟨_, after', h, -, rfl⟩ := forall₂_append_iff.mp hst
  obtain ⟨before', w', -, hw', rfl⟩ := forall₂_append_iff.mp h
  exact ⟨w', hw.recased hw', before', after', rfl⟩

/-- Two error texts that differ in the case of letters of ASCII only have the same hint. -/
theorem hint_of_recased (h : List.Forall₂ Recased s t) :
    Descriptor.compose.hint s = Descriptor.compose.hint t := by
  have hback : List.Forall₂ Recased t s := h.flip.imp fun _ _ => Recased.symm
  have hplace : place s = place t :=
    Nat.le_antisymm (place_anti fun _ hi => hi.recased hback) (place_anti fun _ hi => hi.recased h)
  exact hint_congr hplace

def missingTaskText : WideText := ofString "Ta\u017F\u212A 'x' not found"

def otherCaseText : WideText := ofString "tA\u017F\u212A 'X' NOT founD"

theorem hint_of_otherCaseText : List.Forall₂ Recased missingTaskText otherCaseText ∧
    Descriptor.compose.hint missingTaskText = Descriptor.compose.hint otherCaseText ∧
    (Descriptor.compose.hint otherCaseText).isSome := by
  have h : List.Forall₂ Recased missingTaskText otherCaseText := by decide +kernel
  exact ⟨h, hint_of_recased h, by decide +kernel⟩

end Texts

end ParserRelay.Hint
