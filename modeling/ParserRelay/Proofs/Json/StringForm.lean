import Mathlib.Data.List.Basic
import ParserRelay.Json.Printer
import ParserRelay.Json.Reader
/-!
# Written forms of strings

A string has many written forms: a character may stand for itself unless it is a mark, a backslash
or a control character, and any character may be escaped, by its short escape or in four hexadecimal
digits, one beyond the first plane by the two halves of its pair. The reader reads each of them as
the string, and the printer writes one of them. Wide texts have written forms too: these are stated
on the units the reader collects, since halves pair up only where both are escaped.
-/
namespace ParserRelay.Json

def shortEscapes : List (Char × Char) := [('"', '"'), ('\\', '\\'), ('/', '/'), ('b', '\x08'),
  ('f', '\x0c'), ('n', '\n'), ('r', '\r'), ('t', '\t')]

inductive Quad : Text → Nat → Prop
  | mk {a b c d : Char} {i j k l : Nat} :
      Text.hexValue? a = some i → Text.hexValue? b = some j → Text.hexValue? c = some k →
      Text.hexValue? d = some l → Quad [a, b, c, d] (((16 * i + j) * 16 + k) * 16 + l)

/-- A string and what may stand for it between the marks. -/
inductive StringBody : Text → Text → Prop
  | nil : StringBody [] []
  | plain {c : Char} {t b : Text} :
      c ≠ '"' → c ≠ '\\' → 0x20 ≤ c.toNat → StringBody t b → StringBody (c :: t) (c :: b)
  | short {e c : Char} {t b : Text} :
      (e, c) ∈ shortEscapes → StringBody t b → StringBody (c :: t) ('\\' :: e :: b)
  | numeric {c : Char} {q t b : Text} :
      Quad q c.toNat → StringBody t b → StringBody (c :: t) ('\\' :: 'u' :: (q ++ b))
  | pair {c : Char} {q r t b : Text} : 0x10000 ≤ c.toNat →
      Quad q (0xD800 + (c.toNat - 0x10000) / 1024) → Quad r (0xDC00 + (c.toNat - 0x10000) % 1024) →
      StringBody t b → StringBody (c :: t) ('\\' :: 'u' :: (q ++ '\\' :: 'u' :: (r ++ b)))

inductive UnitText : StringUnit → WideText → Prop
  | plain {c : CodePoint} :
      c ≠ .char '"' → c ≠ .char '\\' → 0x20 ≤ c.toNat → UnitText (.written c) [c]
  | short {e c : Char} :
      (e, c) ∈ shortEscapes → UnitText (.written (.char c)) (WideText.ofText ['\\', e])
  | numeric {c : Char} {q : Text} :
      Quad q c.toNat → UnitText (.written (.char c)) (WideText.ofText ('\\' :: 'u' :: q))
  | half {s : Surrogate} {q : Text} :
      Quad q (0xD800 + s.val) → UnitText (.escapedHalf s) (WideText.ofText ('\\' :: 'u' :: q))

inductive UnitsText : List StringUnit → WideText → Prop
  | nil : UnitsText [] []
  | cons {u : StringUnit} {us : List StringUnit} {t b : WideText} :
      UnitText u t → UnitsText us b → UnitsText (u :: us) (t ++ b)

/-- Units and the text they make: two escaped halves of one character make it, any other half
stands alone. -/
inductive Joined : List StringUnit → WideText → Prop
  | nil : Joined [] []
  | written {c : CodePoint} {us : List StringUnit} {w : WideText} :
      Joined us w → Joined (.written c :: us) (c :: w)
  | pair {s u : Surrogate} {c : Char} {us : List StringUnit} {w : WideText} :
      CodePoint.paired? s u = some c → Joined us w →
      Joined (.escapedHalf s :: .escapedHalf u :: us) (.char c :: w)
  | lone {s : Surrogate} {us : List StringUnit} {w : WideText} :
      (∀ u r, us = .escapedHalf u :: r → CodePoint.paired? s u = none) → Joined us w →
      Joined (.escapedHalf s :: us) (.lone s :: w)

inductive StringForm (d : Dialect) : WideText → WideText → Prop
  | mk {us : List StringUnit} {w b : WideText} :
      UnitsText us b → Joined us w → (d.loneHalves ∨ (WideText.toText? w).isSome) →
      StringForm d w b

def Spaces (w : WideText) : Prop := ∀ c ∈ w, isSpace c

def Padding (t : Text) : Prop := ∀ c ∈ t, isSpace (.char c)

theorem Padding.spaces {p : Text} (h : Padding p) : Spaces (WideText.ofText p) := by
  intro c hc
  obtain ⟨e, he, rfl⟩ := List.mem_map.mp hc
  exact h e he

theorem skip_spaces {w : WideText} (h : Spaces w) {c : CodePoint} (hc : isSpace c = false)
    (r : WideText) : skip (w ++ c :: r) = c :: r := by
  rw [skip, List.dropWhile_append_of_pos h, List.dropWhile_cons_of_neg (by simp [hc])]

theorem escaped?_of_mem {e c : Char} (h : (e, c) ∈ shortEscapes) :
    escaped? (.char e) = some c ∧ e ≠ 'u' := by
  simp only [shortEscapes, List.mem_cons, Prod.mk.injEq, List.not_mem_nil, or_false] at h
  rcases h with ⟨rfl, rfl⟩ | ⟨rfl, rfl⟩ | ⟨rfl, rfl⟩ | ⟨rfl, rfl⟩ | ⟨rfl, rfl⟩ | ⟨rfl, rfl⟩ |
    ⟨rfl, rfl⟩ | ⟨rfl, rfl⟩ <;> exact ⟨rfl, by decide⟩

theorem ofNat_toNat (c : Char) : CodePoint.ofNat c.toNat = .char c := by
  have hv : c.toNat < 0xD800 ∨ 0xDFFF < c.toNat ∧ c.toNat < 0x110000 := c.valid
  rw [CodePoint.ofNat, dif_neg (by omega), Char.ofNat_toNat]

theorem ofNat_half {n : Nat} (h : n < 2048) : CodePoint.ofNat (0xD800 + n) = .lone ⟨n, h⟩ := by
  rw [CodePoint.ofNat, dif_pos (by omega)]
  simp

theorem ofEscape_toNat (c : Char) : StringUnit.ofEscape c.toNat = .written (.char c) := by
  rw [StringUnit.ofEscape, ofNat_toNat]

theorem ofEscape_half {n : Nat} (h : n < 2048) :
    StringUnit.ofEscape (0xD800 + n) = .escapedHalf ⟨n, h⟩ := by
  rw [StringUnit.ofEscape, ofNat_half h]

theorem paired?_halves {c : Char} (h : 0x10000 ≤ c.toNat) {i j : Nat}
    (hi : i = (c.toNat - 0x10000) / 1024)
    (hj : j = 1024 + (c.toNat - 0x10000) % 1024) (hi' : i < 2048) (hj' : j < 2048) :
    CodePoint.paired? ⟨i, hi'⟩ ⟨j, hj'⟩ = some c := by
  have hv : c.toNat < 0xD800 ∨ 0xDFFF < c.toNat ∧ c.toNat < 0x110000 := c.valid
  have hn : 0x10000 + 1024 * i + (j - 1024) = c.toNat := by omega
  rw [CodePoint.paired?, if_pos ⟨by simp only; omega, by simp only; omega⟩, hn, Char.ofNat_toNat]

theorem joinUnits_of_joined {us : List StringUnit} {w : WideText} (h : Joined us w) :
    joinUnits us = w := by
  induction h with
  | nil => rfl
  | written _ ih => simp [joinUnits, ih]
  | pair hp _ ih => simp [joinUnits, hp, ih]
  | @lone s us w hn _ ih =>
    cases us with
    | nil => simp [joinUnits, ← ih]
    | cons u r =>
      cases u with
      | written c => simp [joinUnits, ← ih]
      | escapedHalf u => simp [joinUnits, hn u r rfl, ← ih]

section Reading

variable (opened : Nat)

theorem units_mark (t : WideText) : units opened (.char '"' :: t) = .ok ([], t) := by
  rw [units.eq_def]
  exact if_pos rfl

/-- An escape of four digits is read only with a character behind it. -/
theorem units_numeric {q : Text} {n : Nat} (h : Quad q n) {t : WideText} (ht : t ≠ []) :
    units opened (.char '\\' :: .char 'u' :: (WideText.ofText q ++ t)) =
      (units opened t).map (.ofEscape n :: ·) := by
  cases h with
  | @mk a b c d i j k l ha hb hc hd =>
    obtain ⟨z, r, rfl⟩ := List.exists_cons_of_ne_nil ht
    have hq : hexQuad? (.char a) (.char b) (.char c) (.char d) =
        some (((16 * i + j) * 16 + k) * 16 + l) := by
      simp only [hexQuad?, hexDigit?, CodePoint.char?, Option.bind_some, ha, hb, hc, hd]
      rfl
    have he := units.eq_3 opened (.char '\\') (.char a) (.char b) (.char c) (.char d) z r
    rw [if_neg (by decide), if_pos rfl, hq] at he
    exact he

theorem units_of_unit {u : StringUnit} {b : WideText} (h : UnitText u b) {t : WideText}
    (ht : t ≠ []) : units opened (b ++ t) = (units opened t).map (u :: ·) := by
  cases h with
  | @plain c hq hb hc =>
    have hn : ¬ c.toNat < 0x20 := Nat.not_lt.mpr hc
    rw [List.singleton_append, units.eq_def]
    simp only [hq, hb, hn, if_false]
  | @short e c hm =>
    obtain ⟨he, hu⟩ := escaped?_of_mem hm
    show units opened (.char '\\' :: .char e :: t) = _
    rw [units.eq_5 _ _ _ _ (by simpa using hu), if_neg (by decide), if_pos rfl, he]
  | @numeric c q hq =>
    have hn := units_numeric opened hq ht
    rwa [ofEscape_toNat] at hn
  | @half s q hq =>
    have hn := units_numeric opened hq ht
    rwa [ofEscape_half s.isLt] at hn

theorem units_of_text {us : List StringUnit} {b : WideText} (h : UnitsText us b) (r : WideText) :
    units opened (b ++ .char '"' :: r) = .ok (us, r) := by
  induction h with
  | nil => exact units_mark opened r
  | cons hu _ ih =>
    rw [List.append_assoc, units_of_unit opened hu (by simp), ih]
    rfl

end Reading

theorem string_of_form {d : Dialect} {w b : WideText} (h : StringForm d w b) (r : WideText) :
    string d (b ++ .char '"' :: r) = .ok (w, r) := by
  cases h with
  | mk hu hj hw => simp [string, units_of_text _ hu, joinUnits_of_joined hj, hw]

theorem units_of_body {t b : Text} (h : StringBody t b) :
    ∃ us, UnitsText us (WideText.ofText b) ∧ Joined us (WideText.ofText t) := by
  induction h with
  | nil => exact ⟨[], .nil, .nil⟩
  | @plain c t b hq hb hc _ ih =>
    obtain ⟨us, hu, hj⟩ := ih
    have hp : UnitText (.written (.char c)) [.char c] :=
      .plain (by simpa using hq) (by simpa using hb) hc
    exact ⟨_, .cons hp hu, .written hj⟩
  | short hm _ ih =>
    obtain ⟨us, hu, hj⟩ := ih
    exact ⟨_, .cons (.short hm) hu, .written hj⟩
  | @numeric c q t b hq _ ih =>
    obtain ⟨us, hu, hj⟩ := ih
    have h := UnitsText.cons (.numeric hq) hu
    exact ⟨_, by simpa using h, .written hj⟩
  | @pair c q s t b hc hq hs _ ih =>
    obtain ⟨us, hu, hj⟩ := ih
    have hv : c.toNat < 0xD800 ∨ 0xDFFF < c.toNat ∧ c.toNat < 0x110000 := c.valid
    have hlow : 0xDC00 + (c.toNat - 0x10000) % 1024 =
        0xD800 + (1024 + (c.toNat - 0x10000) % 1024) := by
      omega
    rw [hlow] at hs
    have hi : (c.toNat - 0x10000) / 1024 < 2048 := by omega
    have hl : 1024 + (c.toNat - 0x10000) % 1024 < 2048 := by omega
    have h := UnitsText.cons (.half (s := ⟨_, hi⟩) hq) (.cons (.half (s := ⟨_, hl⟩) hs) hu)
    exact ⟨_, by simpa using h, .pair (paired?_halves hc rfl rfl hi hl) hj⟩

theorem stringForm_of_body (d : Dialect) {t b : Text} (h : StringBody t b) :
    StringForm d (WideText.ofText t) (WideText.ofText b) := by
  obtain ⟨us, hu, hj⟩ := units_of_body h
  exact .mk hu hj (.inr (by simp [WideText.toText?_ofText]))

theorem hexValue?_digitChar : ∀ i :
    Fin 16, Text.hexValue? (Nat.digitChar i) = some i.val := by decide

theorem hexOfNat_control : ∀ n : Fin 0x20, Text.hexOfNat 4 n =
    ['0', '0', Nat.digitChar (n.val / 16), Nat.digitChar (n.val % 16)] := by decide

theorem quad_control {n : Nat} (h : n < 0x20) : Quad (Text.hexOfNat 4 n) n := by
  have hk := hexValue?_digitChar ⟨n / 16, by omega⟩
  have hl := hexValue?_digitChar ⟨n % 16, by omega⟩
  have hq := Quad.mk (a := '0') (b := '0') (i := 0) (j := 0) rfl rfl hk hl
  have hn : n = ((16 * 0 + 0) * 16 + n / 16) * 16 + n % 16 := by omega
  have hd := hexOfNat_control ⟨n, h⟩
  simp only at hd hq
  rwa [← hd, ← hn] at hq

theorem stringChar_cases (c : Char) :
    (∃ e, (e, c) ∈ shortEscapes ∧ stringChar c = ['\\', e]) ∨
      (c.toNat < 0x20 ∧ stringChar c = '\\' :: 'u' :: Text.hexOfNat 4 c.toNat) ∨
      (c ≠ '"' ∧ c ≠ '\\' ∧ 0x20 ≤ c.toNat ∧ stringChar c = [c]) := by
  unfold stringChar
  split_ifs with hq hb hn hr ht h8 hf hc
  · subst hq
    exact .inl ⟨'"', by decide, rfl⟩
  · subst hb
    exact .inl ⟨'\\', by decide, rfl⟩
  · subst hn
    exact .inl ⟨'n', by decide, rfl⟩
  · subst hr
    exact .inl ⟨'r', by decide, rfl⟩
  · subst ht
    exact .inl ⟨'t', by decide, rfl⟩
  · subst h8
    exact .inl ⟨'b', by decide, rfl⟩
  · subst hf
    exact .inl ⟨'f', by decide, rfl⟩
  · exact .inr (.inl ⟨hc, rfl⟩)
  · exact .inr (.inr ⟨hq, hb, by omega, rfl⟩)

def Visible (t : Text) : Prop := ∀ c ∈ t, 0x20 ≤ c.toNat

theorem visible_of_all {t : Text} (h : (t.all fun c => decide (0x20 ≤ c.toNat)) = true) :
    Visible t := fun c hc => of_decide_eq_true (List.all_eq_true.1 h c hc)

theorem visible_stringChar (c : Char) : Visible (stringChar c) := by
  rcases stringChar_cases c with ⟨e, he, hs⟩ | ⟨hc, hs⟩ | ⟨-, -, hc, hs⟩
  · have hshort : ∀ x ∈ shortEscapes, 0x20 ≤ x.1.toNat := by
      simp [shortEscapes]
    rw [hs]
    exact List.forall_mem_cons.2 ⟨by decide, List.forall_mem_singleton.2 (hshort _ he)⟩
  · have hcontrol : ∀ n : Fin 0x20, (('\\' :: 'u' :: Text.hexOfNat 4 n).all
        fun c => decide (0x20 ≤ c.toNat)) = true := by decide
    rw [hs]
    exact visible_of_all (hcontrol ⟨c.toNat, hc⟩)
  · rw [hs]
    exact List.forall_mem_singleton.2 hc

theorem visible_stringText (t : Text) : Visible (stringText t) := by
  intro c hc
  simp only [stringText, List.mem_append, List.mem_cons, List.mem_flatMap, List.not_mem_nil,
    or_false] at hc
  rcases hc with (rfl | ⟨e, -, he⟩) | rfl
  · decide
  · exact visible_stringChar e c he
  · decide

theorem stringBody_stringChar (c : Char) {t b : Text} (h : StringBody t b) :
    StringBody (c :: t) (stringChar c ++ b) := by
  rcases stringChar_cases c with ⟨e, he, hs⟩ | ⟨hc, hs⟩ | ⟨hq, hb, hc, hs⟩
  · rw [hs]
    exact .short he h
  · rw [hs]
    exact .numeric (quad_control hc) h
  · rw [hs]
    exact .plain hq hb hc h

theorem stringBody_flatMap (t : Text) : StringBody t (t.flatMap stringChar) := by
  induction t with
  | nil => exact .nil
  | cons c t ih => exact stringBody_stringChar c ih

end ParserRelay.Json
