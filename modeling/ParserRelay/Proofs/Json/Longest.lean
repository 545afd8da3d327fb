import ParserRelay.Proofs.Json.Place
/-!
# The longest number in front

Where a text begins with a number in any way, the scanner leaves no more of it than what comes after
this number. So what it takes is the longest number there is, and the number that stands at a place
of a document does not depend on the scanner.
-/
namespace ParserRelay.Json

variable {t r s : WideText}

theorem length_of_suffix {w : WideText} (h : t = w ++ r) : r.length ≤ t.length := by
  rw [h]
  exact (List.suffix_append w r).length_le

theorem digits_length (t : WideText) : (digits t).2.length ≤ t.length := by
  have h : digits t = ((digits t).1, (digits t).2) := rfl
  exact length_of_suffix (digits_sound h).1

theorem fraction_length (t : WideText) : (fraction t).2.length ≤ t.length := by
  have h : fraction t = ((fraction t).1, (fraction t).2) := rfl
  obtain ⟨ft, -, ht⟩ := fraction_sound h
  exact length_of_suffix ht

theorem exponent_length (t : WideText) : (exponent t).2.length ≤ t.length := by
  have h : exponent t = ((exponent t).1, (exponent t).2) := rfl
  obtain ⟨et, -, ht⟩ := exponent_sound h
  exact length_of_suffix ht

theorem digits_extend {ds : Text} (h : Digits ds) (s : WideText) :
    ∃ es u, WideText.ofText ds ++ s = WideText.ofText (ds ++ es) ++ u ∧ Digits (ds ++ es) ∧
      NoDigit u ∧ u.length ≤ s.length := by
  have hscan : digits s = ((digits s).1, (digits s).2) := rfl
  obtain ⟨hs, hes, hu⟩ := digits_sound hscan
  refine ⟨(digits s).1, (digits s).2, ?_, ⟨by simp [h.1], ?_⟩, hu, digits_length s⟩
  · rw [WideText.ofText_append, List.append_assoc, ← hs]
  · exact List.forall_mem_append.mpr ⟨h.2, hes⟩

theorem whole?_covers {w : Text} (hw : WholePart w) (s : WideText) :
    ∃ v u, whole? (WideText.ofText w ++ s) = some (v, u) ∧ u.length ≤ s.length := by
  cases hw with
  | zero => exact ⟨['0'], s, rfl, Nat.le_refl _⟩
  | natural hd h0 =>
    obtain ⟨es, u, ht, hds, hu, hle⟩ := digits_extend hd s
    obtain ⟨c, ds, rfl, -⟩ := hd.cons
    rw [ht]
    exact ⟨_, u, whole?_of_form (.natural hds h0) hu, hle⟩

theorem fraction_covers {f ft : Text} (h : FractionPart f ft) (s : WideText) :
    (fraction (WideText.ofText ft ++ s)).2.length ≤ s.length := by
  cases h with
  | none => exact fraction_length s
  | some hd =>
    obtain ⟨es, u, ht, hds, hu, hle⟩ := digits_extend hd s
    obtain ⟨c, ds, hcons, -⟩ := hds.cons
    rw [WideText.ofText_cons, List.cons_append, ht, fraction.eq_1, digits_append hds.2 hu, hcons]
    exact hle

theorem exponent_covers {e : Option (Bool × Text)} {et : Text} (h : ExponentPart e et)
    (s : WideText) : (exponent (WideText.ofText et ++ s)).2.length ≤ s.length := by
  cases h with
  | none => exact exponent_length s
  | @some mark sign ds negative hm hs hd =>
    obtain ⟨es, u, ht, hds, hu, hle⟩ := digits_extend hd s
    have hc : CodePoint.char mark = .char 'e' ∨ CodePoint.char mark = .char 'E' := by
      simpa using hm
    rw [WideText.ofText_cons, List.cons_append, WideText.ofText_append, List.append_assoc, ht,
      ← List.append_assoc, ← WideText.ofText_append, exponent.eq_2, if_pos hc,
      signedDigits?_of_form hs hds hu]
    exact hle

theorem number?_eq {negative : Bool} {w v : Text} (hw : WholePart w) {t u : WideText}
    (h : whole? (WideText.ofText w ++ t) = some (v, u)) :
    number? (WideText.ofText (if negative then ['-'] else []) ++ (WideText.ofText w ++ t)) =
      some (⟨negative, v, (fraction u).1, (exponent (fraction u).2).1⟩,
        (exponent (fraction u).2).2) := by
  obtain ⟨c, ds, rfl, hc⟩ := hw.cons
  have hminus : c ≠ '-' := by
    rintro rfl
    exact absurd hc (by decide)
  cases negative with
  | true =>
    rw [if_pos rfl, WideText.ofText_cons, WideText.ofText_nil, List.singleton_append, number?]
    simp only [h]
  | false =>
    rw [WideText.ofText_cons, List.cons_append] at h
    simp [number?, h, hminus]

theorem number?_covers {m n : NumberText} {a : Text} (ha : NumberForm m a) {s : WideText}
    (h : number? (WideText.ofText a ++ s) = some (n, r)) : r.length ≤ s.length := by
  cases ha with
  | @mk negative w f ft et e hw hf he =>
    simp only [WideText.ofText_append, List.append_assoc] at h
    cases he with
    | none =>
      cases hf with
      | none =>
        obtain ⟨v, u, hv, hle⟩ := whole?_covers hw s
        simp only [WideText.ofText_nil, List.nil_append] at h
        rw [number?_eq hw hv] at h
        cases h
        exact (exponent_length _).trans ((fraction_length u).trans hle)
      | some hd =>
        -- the point ends the whole part
        have hwhole := whole?_of_form hw (noDigit_cons (c := '.') rfl (WideText.ofText f ++ s))
        have hcover := fraction_covers (.some hd) s
        simp only [WideText.ofText_cons, WideText.ofText_nil, List.nil_append,
          List.cons_append] at h hcover
        rw [number?_eq hw hwhole] at h
        cases h
        exact (exponent_length _).trans hcover
    | @some mark sign ds b hm hs hd =>
      -- the mark ends whatever comes before it
      have hmark : mark.isDigit = false ∧ mark ≠ '.' := by
        simp only [List.mem_cons, List.not_mem_nil, or_false] at hm
        rcases hm with rfl | rfl <;> exact ⟨by decide, by decide⟩
      have hrest : NoDigit (WideText.ofText (mark :: (sign ++ ds)) ++ s) := noDigit_cons hmark.1 _
      have hpoint : NoDigit (WideText.ofText ft ++ (WideText.ofText (mark :: (sign ++ ds)) ++ s)) := by
        cases hf with
        | none => exact hrest
        | some _ => exact noDigit_cons rfl _
      have hfraction := fraction_of_form hf hrest (by simpa using hmark.2)
      rw [number?_eq hw (whole?_of_form hw hpoint), hfraction] at h
      cases h
      exact exponent_covers (.some hm hs hd) s

theorem foremost_of_number? {n : NumberText} (h : number? t = some (n, r)) : Foremost n t := by
  obtain ⟨w, hw, ht⟩ := number?_sound h
  refine ⟨w, r, hw, ht, fun m u s hm hr => ?_⟩
  have hlong : t = WideText.ofText (w ++ u) ++ s := by
    rw [ht, hr, WideText.ofText_append, List.append_assoc]
  have hle := number?_covers hm (hlong ▸ h)
  rw [hr, List.length_append, WideText.ofText, List.length_map] at hle
  exact List.eq_nil_of_length_eq_zero (by omega)

section OneNumber

theorem ofText_injective : Function.Injective WideText.ofText :=
  List.map_injective_iff.mpr fun _ _ h => CodePoint.char.inj h

theorem number_of_form {n : NumberText} {w : Text} (h : NumberForm n w) :
    number? (WideText.ofText w) = some (n, []) := by
  have hnone : Delimited [] := fun c u hc => by cases hc
  simpa using number?_of_form h hnone

/-- No text begins with two longest numbers. -/
theorem Foremost.unique {m n : NumberText} (hm : Foremost m t) (hn : Foremost n t) : m = n := by
  obtain ⟨a, r, ha, ht, hlong⟩ := hm
  obtain ⟨b, s, hb, hs, hlong'⟩ := hn
  -- one of the two is a beginning of the other
  suffices hab : a = b by
    rw [hab] at ha
    have h := (number_of_form ha).symm.trans (number_of_form hb)
    exact congrArg Prod.fst (Option.some.inj h)
  rw [ht] at hs
  rcases List.append_eq_append_iff.mp hs with ⟨x, hx, hr⟩ | ⟨x, hx, hr⟩
  · obtain ⟨p, u, rfl, hp, rfl⟩ := List.map_eq_append_iff.mp hx
    obtain rfl := ofText_injective hp
    rw [hlong n u s hb hr, List.append_nil]
  · obtain ⟨p, u, rfl, hp, rfl⟩ := List.map_eq_append_iff.mp hx
    obtain rfl := ofText_injective hp
    rw [hlong' m u r ha hr, List.append_nil]

theorem NumberForm.length_le {n : NumberText} {w : Text} (h : NumberForm n w) :
    n.whole.length + n.negative.toNat ≤ w.length := by
  cases h with
  | @mk negative w f ft et e _ _ _ =>
    cases negative <;> simp

theorem exceeds_of_length {n : NumberText} {rule : LengthRule}
    (h : n.whole.length + n.negative.toNat ≤ rule.limit) : n.exceeds rule = false := by
  cases rule with
  | integers limit =>
    simp only [NumberText.exceeds, Bool.and_eq_false_iff, decide_eq_false_iff_not]
    exact .inr (by rw [LengthRule.limit] at h; omega)
  | wholeParts limit =>
    simp only [NumberText.exceeds, decide_eq_false_iff_not]
    rw [LengthRule.limit] at h
    omega

theorem Foremost.fits {n : NumberText} {rule : LengthRule} (h : Foremost n t)
    (hlength : t.length ≤ rule.limit) : n.exceeds rule = false := by
  obtain ⟨w, r, hw, rfl, -⟩ := h
  have hle := hw.length_le
  rw [List.length_append, WideText.ofText, List.length_map] at hlength
  exact exceeds_of_length (by omega)

theorem Foremost.cons {n : NumberText} (h : Foremost n t) : ∃ c u, t = .char c :: u ∧ NumberChar c := by
  obtain ⟨w, r, hw, rfl, -⟩ := h
  obtain ⟨c, u, rfl, -⟩ := number_cons hw
  exact ⟨c, WideText.ofText u ++ r, rfl, numberChar_of_mem hw List.mem_cons_self⟩

/-- Where no character before a number can stand in one, and too few come after it for a long one,
the numbers of the whole text are as long as this one allows. -/
theorem numbersWithin_of_one {n : NumberText} {before w : Text} {rule : LengthRule} {after : WideText}
    (hbefore : (before.any fun c => decide (NumberChar c)) = false) (hn : NumberForm n w)
    (hafter : Delimited after) (hlength : after.length ≤ rule.limit)
    (hfit : n.exceeds rule = false) :
    NumbersWithin rule (WideText.ofText before ++ (WideText.ofText w ++ after)) := by
  intro p t depth m hplace hsep hm
  have hwhole (ht : t = WideText.ofText w ++ after) : m.exceeds rule = false := by
    rw [ht] at hm
    rwa [hm.unique (foremost_of_delimited hn hafter)]
  rcases List.append_eq_append_iff.mp hplace.parts with ⟨x, hp, hx⟩ | ⟨x, hx, ht⟩
  · rcases List.append_eq_append_iff.mp hx with ⟨y, hy, ht⟩ | ⟨y, hy, ht⟩
    · -- the place is behind the number
      exact hm.fits ((length_of_suffix ht).trans hlength)
    · rcases List.eq_nil_or_concat' x with rfl | ⟨z, c, rfl⟩
      · exact hwhole (by rw [ht, hy, List.nil_append])
      · -- the place is within the number
        have hc : c ∈ WideText.ofText w := by simp [hy]
        obtain ⟨e, he, rfl⟩ := List.mem_map.mp hc
        rw [hp, ← List.append_assoc] at hsep
        exact absurd (numberChar_of_mem hn he) (hsep e (List.getLast?_concat ..))
  · cases x with
    | nil => exact hwhole ht
    | cons c x =>
      -- the place is in front of the number, where none begins
      obtain ⟨e, u, he, hchar⟩ := hm.cons
      rw [ht] at he
      obtain ⟨rfl, -⟩ := List.cons.inj he
      have hmem : CodePoint.char e ∈ WideText.ofText before := by simp [hx]
      obtain ⟨b, hb, hbe⟩ := List.mem_map.mp hmem
      rw [CodePoint.char.inj hbe] at hb
      exact absurd hchar (by simpa using List.any_eq_false.mp hbefore e hb)

def ones (k : ℕ) : Text := List.replicate k '1'

theorem digits_ones {k : ℕ} (hk : 0 < k) : Digits (ones k) := by
  refine ⟨by simp [ones, Nat.ne_of_gt hk], fun c hc => ?_⟩
  rw [List.eq_of_mem_replicate hc]
  rfl

theorem wholePart_ones {k : ℕ} (hk : 0 < k) : WholePart (ones k) := by
  apply WholePart.natural (digits_ones hk)
  intro h
  have hzero := List.eq_of_mem_replicate (List.mem_of_head? h)
  cases hzero

theorem numberForm_ones {k : ℕ} (hk : 0 < k) :
    NumberForm ⟨false, ones k, [], none⟩ (ones k) := by
  simpa using @NumberForm.mk false _ _ _ _ _ (wholePart_ones hk) .none .none

end OneNumber

end ParserRelay.Json
