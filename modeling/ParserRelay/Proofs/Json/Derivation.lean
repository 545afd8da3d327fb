import Mathlib.Data.List.TakeWhile
import ParserRelay.Proofs.Json.Acceptance
import ParserRelay.Text.Utf8.RoundTrip
/-!
# Every document that is read is in the grammar

What a scanner takes from the front of a text has the form that the grammar asks for, and what the
reader takes is derived for the value that it returns. Together with acceptance, a text is read as a
value exactly if the grammar derives it.
-/
namespace ParserRelay.Json
open Text (joinWith)

variable {d : Dialect} {t r : WideText}

section Numbers

theorem digits_sound {ds : Text} (h : digits t = (ds, r)) :
    t = WideText.ofText ds ++ r ∧ (∀ c ∈ ds, c.isDigit) ∧ NoDigit r := by
  induction t generalizing ds with
  | nil =>
    cases h
    exact ⟨rfl, by simp, fun c u hc => by cases hc⟩
  | cons x t ih =>
    cases x with
    | lone s =>
      cases h
      exact ⟨rfl, by simp, fun c u hc => by cases hc⟩
    | char c =>
      rw [digits] at h
      split at h
      · rename_i hc
        cases h
        obtain ⟨ht, hds, hr⟩ := ih rfl
        refine ⟨?_, List.forall_mem_cons.mpr ⟨hc, hds⟩, hr⟩
        rw [WideText.ofText_cons, List.cons_append, ← ht]
      · rename_i hc
        cases h
        exact ⟨rfl, by simp, noDigit_cons (by simpa using hc) t⟩

theorem whole?_sound {w : Text} (h : whole? t = some (w, r)) : WholePart w ∧ t = WideText.ofText w ++ r := by
  unfold whole? at h
  split at h
  · cases h
    exact ⟨.zero, rfl⟩
  · rename_i hzero
    split at h
    · cases h
    · rename_i hne
      have hscan := Option.some.inj h
      obtain ⟨ht, hds, -⟩ := digits_sound hscan
      have hnil : w ≠ [] := by
        rintro rfl
        exact hne r hscan
      refine ⟨.natural ⟨hnil, hds⟩ ?_, ht⟩
      intro hhead
      obtain ⟨u, hu⟩ := List.head?_eq_some_iff.mp hhead
      rw [hu] at ht
      exact hzero _ ht

theorem fraction_sound {f : Text} (h : fraction t = (f, r)) :
    ∃ ft, FractionPart f ft ∧ t = WideText.ofText ft ++ r := by
  unfold fraction at h
  split at h
  · rename_i u
    split at h
    · cases h
      exact ⟨[], .none, rfl⟩
    · rename_i hne
      obtain ⟨hu, hds, -⟩ := digits_sound h
      have hnil : f ≠ [] := by
        rintro rfl
        exact hne r h
      exact ⟨'.' :: f, .some ⟨hnil, hds⟩, by rw [hu]; rfl⟩
  · cases h
    exact ⟨[], .none, rfl⟩

theorem signedDigits?_sound {negative : Bool} {ds : Text}
    (h : signedDigits? t = some ((negative, ds), r)) :
    ∃ s, (s, negative) ∈ exponentSigns ∧ Digits ds ∧ t = WideText.ofText (s ++ ds) ++ r := by
  have taken {u : WideText} {b : Bool}
      (hu : (if (digits u).1.isEmpty then none else some ((b, (digits u).1), (digits u).2)) =
        some ((negative, ds), r)) : b = negative ∧ Digits ds ∧ u = WideText.ofText ds ++ r := by
    obtain ⟨ht, hds, -⟩ := digits_sound (Eq.refl (digits u))
    split at hu
    · cases hu
    · rename_i hne
      cases hu
      exact ⟨rfl, ⟨by simpa using hne, hds⟩, ht⟩
  unfold signedDigits? at h
  split at h
  · obtain ⟨rfl, hds, rfl⟩ := taken h
    exact ⟨['+'], by simp [exponentSigns], hds, rfl⟩
  · obtain ⟨rfl, hds, rfl⟩ := taken h
    exact ⟨['-'], by simp [exponentSigns], hds, rfl⟩
  · obtain ⟨rfl, hds, rfl⟩ := taken h
    exact ⟨[], by simp [exponentSigns], hds, rfl⟩

theorem exponent_sound {e : Option (Bool × Text)} (h : exponent t = (e, r)) :
    ∃ et, ExponentPart e et ∧ t = WideText.ofText et ++ r := by
  unfold exponent at h
  split at h
  · cases h
    exact ⟨[], .none, rfl⟩
  · rename_i c u
    split at h
    · rename_i hc
      split at h
      · rename_i x r' hs
        obtain ⟨negative, ds⟩ := x
        cases h
        obtain ⟨s, hsign, hds, rfl⟩ := signedDigits?_sound hs
        rcases hc with rfl | rfl
        · exact ⟨_, .some (by simp) hsign hds, rfl⟩
        · exact ⟨_, .some (by simp) hsign hds, rfl⟩
      · cases h
        exact ⟨[], .none, rfl⟩
    · cases h
      exact ⟨[], .none, rfl⟩

theorem number?_sound {n : NumberText} (h : number? t = some (n, r)) :
    ∃ w, NumberForm n w ∧ t = WideText.ofText w ++ r := by
  unfold number? at h
  split at h
  rename_i negative u hsign
  have ht : t = WideText.ofText (if negative then ['-'] else []) ++ u := by
    split at hsign
    · cases hsign
      rfl
    · cases hsign
      rfl
  split at h
  · cases h
  · rename_i w v hw
    obtain ⟨hwhole, rfl⟩ := whole?_sound hw
    obtain ⟨f, x, hf⟩ : ∃ f x, fraction v = (f, x) := ⟨_, _, rfl⟩
    obtain ⟨e, y, he⟩ : ∃ e y, exponent x = (e, y) := ⟨_, _, rfl⟩
    simp only [hf, he] at h
    cases h
    obtain ⟨ft, hft, rfl⟩ := fraction_sound hf
    obtain ⟨et, het, rfl⟩ := exponent_sound he
    exact ⟨_, .mk hwhole hft het, by simp [ht]⟩

end Numbers

section Strings

theorem eq_ok_of_map {α β : Type} {f : α → β} {x : Reading α} {b : β} (h : x.map f = .ok (b, r)) :
    ∃ a, x = .ok (a, r) ∧ f a = b := by
  cases x with
  | error e => cases h
  | ok y =>
    obtain ⟨a, u⟩ := y
    cases h
    exact ⟨a, rfl, rfl⟩

theorem mem_of_escaped? {c : CodePoint} {s : Char} (h : escaped? c = some s) :
    ∃ e, c = .char e ∧ (e, s) ∈ shortEscapes := by
  unfold escaped? at h
  split at h
  all_goals cases h
  all_goals exact ⟨_, rfl, by decide⟩

theorem quad_of_hexQuad? {a b x y : CodePoint} {n : ℕ} (h : hexQuad? a b x y = some n) :
    ∃ q, Quad q n ∧ [a, b, x, y] = WideText.ofText q := by
  have digit {c : CodePoint} {i : ℕ} (hc : hexDigit? c = some i) :
      ∃ e, c = .char e ∧ Text.hexValue? e = some i := by
    obtain ⟨e, he, hi⟩ := Option.bind_eq_some_iff.mp hc
    cases c with
    | char e' =>
      cases he
      exact ⟨e, rfl, hi⟩
    | lone s => cases he
  obtain ⟨i, hi, h⟩ := Option.bind_eq_some_iff.mp h
  obtain ⟨j, hj, h⟩ := Option.bind_eq_some_iff.mp h
  obtain ⟨k, hk, h⟩ := Option.bind_eq_some_iff.mp h
  obtain ⟨l, hl, h⟩ := Option.bind_eq_some_iff.mp h
  cases h
  obtain ⟨a, rfl, ha⟩ := digit hi
  obtain ⟨b, rfl, hb⟩ := digit hj
  obtain ⟨x, rfl, hx⟩ := digit hk
  obtain ⟨y, rfl, hy⟩ := digit hl
  exact ⟨_, .mk ha hb hx hy, rfl⟩

theorem hexValue?_lt {c : Char} {n : ℕ} (h : Text.hexValue? c = some n) : n < 16 := by
  have hle {e : Char} (he : c ≤ e) : c.toNat ≤ e.toNat := he
  unfold Text.hexValue? at h
  split at h
  · rename_i hc
    have h9 : c.toNat ≤ 57 := hle hc.2
    have h0 : '0'.toNat = 48 := rfl
    cases h
    omega
  · split at h
    · rename_i hc
      have hf : c.toNat ≤ 102 := hle hc.2
      have ha : 'a'.toNat = 97 := rfl
      cases h
      omega
    · split at h
      · rename_i hc
        have hF : c.toNat ≤ 70 := hle hc.2
        have hA : 'A'.toNat = 65 := rfl
        cases h
        omega
      · cases h

theorem Quad.lt {q : Text} {n : ℕ} (h : Quad q n) : n < 0x10000 := by
  cases h with
  | mk ha hb hc hd =>
    have hi := hexValue?_lt ha
    have hj := hexValue?_lt hb
    have hk := hexValue?_lt hc
    have hl := hexValue?_lt hd
    omega

/-- Four digits stand for a character of the first plane or for half a pair. -/
theorem unitText_quad {q : Text} {n : ℕ} (h : Quad q n) :
    UnitText (.ofEscape n) (WideText.ofText ('\\' :: 'u' :: q)) := by
  have hlt := h.lt
  by_cases hn : 0xD800 ≤ n ∧ n < 0xE000
  · obtain ⟨k, rfl⟩ : ∃ k, n = 0xD800 + k := ⟨n - 0xD800, by omega⟩
    have hk : k < 2048 := by omega
    rw [ofEscape_half hk]
    exact .half h
  · have hc : (Char.ofNat n).toNat = n := Text.toNat_ofNat (by omega)
    rw [← hc, ofEscape_toNat]
    rw [← hc] at h
    exact .numeric h

theorem units_sound {opened : ℕ} {us : List StringUnit} (h : units opened t = .ok (us, r)) :
    ∃ b, UnitsText us b ∧ t = b ++ .char '"' :: r := by
  fun_induction units opened t generalizing us with
  | case2 t =>
    cases h
    exact ⟨[], .nil, rfl⟩
  | case4 a b x y z u n hq _ ih =>
    obtain ⟨vs, hvs, rfl⟩ := eq_ok_of_map h
    obtain ⟨w, hw, hu⟩ := ih hvs
    obtain ⟨q, hquad, hab⟩ := quad_of_hexQuad? hq
    refine ⟨_, .cons (unitText_quad hquad) hw, ?_⟩
    rw [WideText.ofText_cons, WideText.ofText_cons, ← hab, hu]
    simp
  | case7 e u _ s hs _ ih =>
    obtain ⟨vs, hvs, rfl⟩ := eq_ok_of_map h
    obtain ⟨w, hw, rfl⟩ := ih hvs
    obtain ⟨e, rfl, hm⟩ := mem_of_escaped? hs
    exact ⟨_, .cons (.short hm) hw, rfl⟩
  | case10 c u hq hb hc ih =>
    obtain ⟨vs, hvs, rfl⟩ := eq_ok_of_map h
    obtain ⟨w, hw, rfl⟩ := ih hvs
    exact ⟨_, .cons (.plain hq hb (Nat.not_lt.mp hc)) hw, rfl⟩
  | _ => cases h

theorem joined_joinUnits (us : List StringUnit) : Joined us (joinUnits us) := by
  fun_induction joinUnits us with
  | case1 => exact .nil
  | case2 c us ih => exact .written ih
  | case3 s u us c hp ih => exact .pair hp ih
  | case4 s u us hp ih =>
    apply Joined.lone _ ih
    intro v w hv
    cases hv
    exact hp
  | case5 s us hne ih =>
    apply Joined.lone _ ih
    intro v w hv
    exact absurd hv (hne v w)

theorem string_sound {w : WideText} (h : string d t = .ok (w, r)) :
    ∃ b, StringForm d w b ∧ t = b ++ .char '"' :: r := by
  unfold string at h
  split at h
  · cases h
  · rename_i us u hu
    obtain ⟨b, hb, rfl⟩ := units_sound hu
    simp only at h
    split at h
    · rename_i hhalves
      cases h
      exact ⟨b, .mk hb (joined_joinUnits us) (by simpa using hhalves), rfl⟩
    · cases h

end Strings

theorem spaces_skip (t : WideText) : ∃ w, Spaces w ∧ t = w ++ skip t :=
  ⟨t.takeWhile isSpace, fun _ hc => List.mem_takeWhile_imp hc, List.takeWhile_append_dropWhile.symm⟩

theorem named?_sound {v : Json} (h : named? t = some (v, r)) :
    ∃ name, (name, v) ∈ namedValues ∧ t = WideText.ofText name ++ r := by
  obtain ⟨⟨name, u⟩, hm, hf⟩ := List.exists_of_findSome?_eq_some h
  obtain ⟨s, hs, he⟩ := Option.map_eq_some_iff.mp hf
  cases he
  exact ⟨name, hm, Text.eq_append_of_after? hs⟩

theorem scalar_sound {v : Json} (h : scalar d t = .ok (v, r)) (k : ℕ) :
    ∃ w, t = w ++ r ∧ Value d k w v := by
  unfold scalar at h
  split at h
  · rename_i hn
    cases h
    obtain ⟨name, hm, rfl⟩ := named?_sound hn
    exact ⟨_, rfl, .named hm⟩
  · split at h
    · cases h
    · rename_i n u hn
      obtain ⟨w, hw, rfl⟩ := number?_sound hn
      split at h
      · cases h
      · rename_i hlong
        cases h
        exact ⟨_, rfl, .number hw (by simpa using hlong)⟩

section Values

variable {k room fuel : ℕ} {v : Json} {vs : List Json} {ms : Members}

theorem joinWith_written_cons {α : Type} (written : α → WideText) (a : α) {as : List α}
    (h : as ≠ []) : joinWith [.char ','] ((a :: as).map written) =
      written a ++ .char ',' :: joinWith [.char ','] (as.map written) := by
  obtain ⟨b, bs, rfl⟩ := List.exists_cons_of_ne_nil h
  simp [joinWith]

def HasElements (d : Dialect) (k : ℕ) (t : WideText) (vs : List Json) (r : WideText) : Prop :=
  ∃ es : List Element, es ≠ [] ∧ (∀ e ∈ es, e.Spaced) ∧ (∀ e ∈ es, Value d k e.text e.value) ∧
    t = joinWith [.char ','] (es.map Element.written) ++ .char ']' :: r ∧ vs = es.map Element.value

theorem HasElements.one {e : Element} (hs : e.Spaced) (hv : Value d k e.text e.value) :
    HasElements d k (e.written ++ .char ']' :: r) [e.value] r :=
  ⟨[e], by simp, by simpa using hs, by simpa using hv, rfl, rfl⟩

theorem HasElements.cons (h : HasElements d k t vs r) {e : Element} (hs : e.Spaced)
    (hv : Value d k e.text e.value) :
    HasElements d k (e.written ++ .char ',' :: t) (e.value :: vs) r := by
  obtain ⟨es, hne, hes, hvs, rfl, rfl⟩ := h
  refine ⟨e :: es, by simp, List.forall_mem_cons.mpr ⟨hs, hes⟩,
    List.forall_mem_cons.mpr ⟨hv, hvs⟩, ?_, rfl⟩
  rw [joinWith_written_cons _ _ hne, List.append_assoc, List.cons_append]

def HasMembers (d : Dialect) (k : ℕ) (t : WideText) (ms : Members) (r : WideText) : Prop :=
  ∃ ns : List Member, ns ≠ [] ∧ (∀ m ∈ ns, m.Keyed d) ∧
    (∀ m ∈ ns, Value d k m.element.text m.element.value) ∧
    t = joinWith [.char ','] (ns.map Member.written) ++ .char '}' :: r ∧ ms = ns.map Member.entry

theorem HasMembers.one {m : Member} (hm : m.Keyed d) (hv : Value d k m.element.text m.element.value) :
    HasMembers d k (m.written ++ .char '}' :: r) [m.entry] r :=
  ⟨[m], by simp, by simpa using hm, by simpa using hv, rfl, rfl⟩

theorem HasMembers.cons (h : HasMembers d k t ms r) {m : Member} (hm : m.Keyed d)
    (hv : Value d k m.element.text m.element.value) :
    HasMembers d k (m.written ++ .char ',' :: t) (m.entry :: ms) r := by
  obtain ⟨ns, hne, hns, hvs, rfl, rfl⟩ := h
  refine ⟨m :: ns, by simp, List.forall_mem_cons.mpr ⟨hm, hns⟩,
    List.forall_mem_cons.mpr ⟨hv, hvs⟩, ?_, rfl⟩
  rw [joinWith_written_cons _ _ hne, List.append_assoc, List.cons_append]

/-- With so much fuel, whatever the readers return is derived. White space in front of the first part
of a container belongs to this part. -/
structure Sound (d : Dialect) (fuel : ℕ) : Prop where
  value : ∀ {room : ℕ} {t r : WideText} {v : Json}, value d room fuel t = .ok (v, r) →
    ∃ w, t = w ++ r ∧ Value d room w v
  items : ∀ {room : ℕ} {t r : WideText} {vs : List Json}, items d room fuel t = .ok (vs, r) →
    ∀ {w : WideText}, Spaces w → HasElements d room (w ++ t) vs r
  members : ∀ {room : ℕ} {t r : WideText} {ms : Members}, members d room fuel t = .ok (ms, r) →
    ∀ {w : WideText}, Spaces w → HasMembers d room (w ++ t) ms r

theorem Sound.value_succ (h : Sound d fuel) (hv : Json.value d room (fuel + 1) t = .ok (v, r)) :
    ∃ w, t = w ++ r ∧ Value d room w v := by
  unfold Json.value at hv
  split at hv
  · rename_i u
    obtain ⟨s, hs, rfl⟩ := eq_ok_of_map hv
    obtain ⟨b, hb, rfl⟩ := string_sound hs
    exact ⟨_, by simp, .string hb⟩
  · rename_i u
    obtain ⟨w, hw, hu⟩ := spaces_skip u
    split at hv
    · rename_i hclose
      split at hv
      · rename_i hroom
        cases hv
        rw [hu, hclose]
        exact ⟨enclosed '[' ']' [w], by simp [enclosed, joinWith], .emptyArray hroom hw⟩
      · cases hv
    · split at hv
      · cases hv
      · obtain ⟨vs, hvs, rfl⟩ := eq_ok_of_map hv
        obtain ⟨es, hne, hs, he, hes, rfl⟩ := h.items hvs hw
        rw [hu, hes]
        exact ⟨_, by simp [enclosed], .array hne hs he⟩
  · rename_i u
    obtain ⟨w, hw, hu⟩ := spaces_skip u
    split at hv
    · rename_i hclose
      split at hv
      · rename_i hroom
        cases hv
        rw [hu, hclose]
        exact ⟨enclosed '{' '}' [w], by simp [enclosed, joinWith], .emptyObject hroom hw⟩
      · cases hv
    · split at hv
      · cases hv
      · obtain ⟨ms, hms, rfl⟩ := eq_ok_of_map hv
        obtain ⟨ns, hne, hk, hn, hns, rfl⟩ := h.members hms hw
        rw [hu, hns]
        exact ⟨_, by simp [enclosed], .object hne hk hn (Members.kept_ofWritten _)⟩
  · exact scalar_sound hv room

theorem Sound.items_succ (h : Sound d fuel) (hi : Json.items d room (fuel + 1) t = .ok (vs, r))
    {w : WideText} (hw : Spaces w) : HasElements d room (w ++ t) vs r := by
  rw [items.eq_2] at hi
  split at hi
  · cases hi
  · rename_i v u hv
    obtain ⟨x, rfl, hx⟩ := h.value hv
    obtain ⟨a, ha, hu⟩ := spaces_skip u
    split at hi
    · rename_i hclose
      cases hi
      rw [hu, hclose]
      have hone := HasElements.one (r := r) (e := ⟨w, x, a, v⟩) ⟨hw, ha⟩ hx
      simpa [Element.written] using hone
    · rename_i s hcomma
      obtain ⟨us, hus, rfl⟩ := eq_ok_of_map hi
      obtain ⟨b, hb, hs⟩ := spaces_skip s
      have hrest := h.items hus hb
      rw [← hs] at hrest
      rw [hu, hcomma]
      have hcons := hrest.cons (e := ⟨w, x, a, v⟩) ⟨hw, ha⟩ hx
      simpa [Element.written] using hcons
    · cases hi

theorem Sound.members_succ (h : Sound d fuel) (hm : Json.members d room (fuel + 1) t = .ok (ms, r))
    {w : WideText} (hw : Spaces w) : HasMembers d room (w ++ t) ms r := by
  unfold Json.members at hm
  split at hm
  · rename_i u
    split at hm
    · cases hm
    · rename_i key x hkey
      obtain ⟨b, hb, rfl⟩ := string_sound hkey
      obtain ⟨a, ha, hx⟩ := spaces_skip x
      split at hm
      · rename_i y hcolon
        obtain ⟨c, hc, hy⟩ := spaces_skip y
        split at hm
        · cases hm
        · rename_i v z hv
          obtain ⟨q, hq, hvalue⟩ := h.value hv
          obtain ⟨e, he, hz⟩ := spaces_skip z
          -- The member from its white space on, and the text with the member taken apart.
          have hkeyed : Member.Keyed d ⟨w, key, b, a, ⟨c, q, e, v⟩⟩ := ⟨hw, hb, ha, hc, he⟩
          rw [hx, hcolon, hy, hq, hz]
          split at hm
          · rename_i hclose
            cases hm
            rw [hclose]
            simpa [Member.written, Element.written, Member.entry] using
              HasMembers.one (r := r) hkeyed hvalue
          · rename_i s hcomma
            obtain ⟨us, hus, rfl⟩ := eq_ok_of_map hm
            obtain ⟨f, hf, hs⟩ := spaces_skip s
            have hrest := h.members hus hf
            rw [← hs] at hrest
            rw [hcomma]
            simpa [Member.written, Element.written, Member.entry] using hrest.cons hkeyed hvalue
          · cases hm
      · cases hm
  · cases hm

theorem sound (d : Dialect) (fuel : ℕ) : Sound d fuel := by
  induction fuel with
  | zero =>
    constructor
    · intro room t r v h
      cases h
    · intro room t r vs h
      cases h
    · intro room t r ms h
      cases h
  | succ fuel ih => exact ⟨ih.value_succ, ih.items_succ, ih.members_succ⟩

theorem document_of_read (h : read d t = .ok v) : Document d t v := by
  unfold read at h
  split at h
  · cases h
  · split at h
    · cases h
    · rename_i u r hv
      obtain ⟨w, ht, hw⟩ := (sound d _).value hv
      obtain ⟨a, ha, hskip⟩ := spaces_skip t
      obtain ⟨b, hb, hr⟩ := spaces_skip r
      split at h
      · rename_i hend
        cases h
        have hdocument := Document.mk (e := ⟨a, w, b, v⟩) ⟨ha, hb⟩ hw
        rwa [Element.written, ← List.append_nil b, ← hend, ← hr, ← ht, ← hskip] at hdocument
      · cases h

end Values

end ParserRelay.Json
