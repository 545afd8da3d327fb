import ParserRelay.Text.Utf8
/-! Writing and reading UTF-8. An encoded character is read as this character whatever follows it, and a
character that is read takes exactly the bytes of its encoded form. -/
namespace ParserRelay.Text

theorem toNat_byte {n : Nat} (h : n < 256) : (UInt8.ofNat n).toNat = n := by
  simp [Nat.mod_eq_of_lt h]

theorem utf8Continue_cons {low high b : UInt8} (hl : low ≤ b) (hh : b ≤ high) (bits taken n : Nat)
    (r : Bytes) : utf8Continue low high bits taken (n + 1) (b :: r) =
      utf8Continue 0x80 0xBF (64 * bits + b.toNat % 64) (taken + 1) n r := by
  simp [utf8Continue, hl, hh]

theorem utf8Continue_tail (v k bits taken n : Nat) (r : Bytes) (h : bits = v / (64 * k)) :
    utf8Continue 0x80 0xBF bits taken (n + 1) (UInt8.ofNat (v / k % 64 + 128) :: r) =
      utf8Continue 0x80 0xBF (v / k) (taken + 1) n r := by
  have hb : (UInt8.ofNat (v / k % 64 + 128)).toNat = v / k % 64 + 128 := toNat_byte (by omega)
  rw [utf8Continue_cons (UInt8.le_iff_toNat_le.2 (by rw [hb]; simp)) (UInt8.le_iff_toNat_le.2 (by rw [hb]; simp; omega)),
    hb, h, Nat.mul_comm 64 k, ← Nat.div_div_eq_div_mul]
  congr 1
  omega

theorem utf8Lead?_two {m : Nat} (hl : 0xC2 ≤ m) (hh : m < 0xE0) :
    utf8Lead? (UInt8.ofNat m) = some ⟨1, 0x80, 0xBF, m - 0xC0⟩ := by
  have hm : (UInt8.ofNat m).toNat = m := toNat_byte (by omega)
  simp [utf8Lead?, UInt8.lt_iff_toNat_lt, hm, show ¬ m < 194 by omega, show m < 224 by omega]

theorem utf8Lead?_three {m n : Nat} (hl : 0xE0 ≤ m) (hh : m < 0xF0) (hn : n < 0xC0) (ht : 0x80 ≤ n)
    (ho : m = 0xE0 → 0xA0 ≤ n) (hs : m = 0xED → n < 0xA0) :
    ∃ low high, utf8Lead? (UInt8.ofNat m) = some ⟨2, low, high, m - 0xE0⟩ ∧
      low ≤ UInt8.ofNat n ∧ UInt8.ofNat n ≤ high := by
  have hm : (UInt8.ofNat m).toNat = m := toNat_byte (by omega)
  have hn' : (UInt8.ofNat n).toNat = n := toNat_byte (by omega)
  simp only [utf8Lead?, UInt8.lt_iff_toNat_lt, UInt8.le_iff_toNat_le, ← UInt8.toNat_inj, hm, hn']
  by_cases h : m = 0xE0
  · have := ho h
    exact ⟨0xA0, 0xBF, by simp [h], by simpa using this, by simp; omega⟩
  · by_cases h' : m = 0xED
    · have := hs h'
      exact ⟨0x80, 0x9F, by simp [h'], by simpa using ht, by simp; omega⟩
    · refine ⟨0x80, 0xBF, ?_, by simpa using ht, by simp; omega⟩
      simp [h, h', hh, show ¬ m < 194 by omega, show ¬ m < 224 by omega]

theorem utf8Lead?_four {m n : Nat} (hl : 0xF0 ≤ m) (hh : m ≤ 0xF4) (hn : n < 0xC0) (ht : 0x80 ≤ n)
    (ho : m = 0xF0 → 0x90 ≤ n) (hs : m = 0xF4 → n < 0x90) :
    ∃ low high, utf8Lead? (UInt8.ofNat m) = some ⟨3, low, high, m - 0xF0⟩ ∧
      low ≤ UInt8.ofNat n ∧ UInt8.ofNat n ≤ high := by
  have hm : (UInt8.ofNat m).toNat = m := toNat_byte (by omega)
  have hn' : (UInt8.ofNat n).toNat = n := toNat_byte (by omega)
  simp only [utf8Lead?, UInt8.lt_iff_toNat_lt, UInt8.le_iff_toNat_le, ← UInt8.toNat_inj, hm, hn']
  by_cases h : m = 0xF0
  · have := ho h
    exact ⟨0x90, 0xBF, by simp [h], by simpa using this, by simp; omega⟩
  · by_cases h' : m = 0xF4
    · have := hs h'
      exact ⟨0x80, 0x8F, by simp [h'], by simpa using ht, by simp; omega⟩
    · refine ⟨0x80, 0xBF, ?_, by simpa using ht, by simp; omega⟩
      simp [h, show ¬ m < 194 by omega, show ¬ m < 224 by omega, show m ≠ 224 by omega,
        show m ≠ 237 by omega, show ¬ m < 240 by omega, show m < 244 by omega]

theorem toNat_scalar (c : Char) : c.toNat < 0xD800 ∨ 0xDFFF < c.toNat ∧ c.toNat < 0x110000 := c.valid

/-- The encoded form of a character is read as this character, whatever follows it. -/
theorem utf8First_encode (c : Char) (r : Bytes) : ∃ b t, String.utf8EncodeChar c = b :: t ∧
    utf8First b (t ++ r) = (some c, t.length) := by
  have hv := toNat_scalar c
  obtain ⟨v, hc⟩ : ∃ v, v = c.toNat := ⟨_, rfl⟩
  have hc' : c.val.toNat = v := hc.symm
  have hof : Char.ofNat v = c := by rw [hc]; exact Char.ofNat_toNat c
  rw [← hc] at hv
  unfold String.utf8EncodeChar
  simp only [hc']
  by_cases h1 : v ≤ 127
  · exact ⟨_, _, if_pos h1, by simp [utf8First, UInt8.lt_iff_toNat_lt, toNat_byte (show v < 256 by omega),
      show v < 128 by omega, hof]⟩
  rw [if_neg h1]
  have hlead : ∀ m, 0x80 ≤ m → m < 256 → ¬ UInt8.ofNat m < 0x80 := fun m hm hlt => by
    rw [UInt8.lt_iff_toNat_lt, toNat_byte hlt]
    simpa using hm
  by_cases h2 : v ≤ 2047
  · refine ⟨_, _, if_pos h2, ?_⟩
    rw [utf8First, if_neg (hlead _ (by omega) (by omega)), utf8Lead?_two (by omega) (by omega)]
    have h := utf8Continue_tail v 1 (v / 64 % 32 + 192 - 0xC0) 0 0 r (by omega)
    rw [Nat.div_one] at h
    simpa [utf8Continue, hof] using h
  rw [if_neg h2]
  by_cases h3 : v ≤ 65535
  · refine ⟨_, _, if_pos h3, ?_⟩
    obtain ⟨low, high, he, hl, hh⟩ := utf8Lead?_three (m := v / 4096 % 16 + 224) (n := v / 64 % 64 + 128)
      (by omega) (by omega) (by omega) (by omega) (by omega) (by omega)
    rw [utf8First, if_neg (hlead _ (by omega) (by omega)), he]
    show utf8Continue low high _ 0 (1 + 1) (_ :: _ :: r) = _
    have h := utf8Continue_tail v 1 (v / 64) 1 0 r (by omega)
    rw [Nat.div_one] at h
    rw [utf8Continue_cons hl hh, toNat_byte (by omega),
      show 64 * (v / 4096 % 16 + 224 - 0xE0) + (v / 64 % 64 + 128) % 64 = v / 64 by omega, h]
    simp [utf8Continue, hof]
  · refine ⟨_, _, if_neg h3, ?_⟩
    obtain ⟨low, high, he, hl, hh⟩ := utf8Lead?_four (m := v / 262144 % 8 + 240) (n := v / 4096 % 64 + 128)
      (by omega) (by omega) (by omega) (by omega) (by omega) (by omega)
    rw [utf8First, if_neg (hlead _ (by omega) (by omega)), he]
    show utf8Continue low high _ 0 (2 + 1) (_ :: _ :: _ :: r) = _
    have h := utf8Continue_tail v 1 (v / 64) 2 0 r (by omega)
    rw [Nat.div_one] at h
    rw [utf8Continue_cons hl hh, toNat_byte (by omega),
      show 64 * (v / 262144 % 8 + 240 - 0xF0) + (v / 4096 % 64 + 128) % 64 = v / 4096 by omega,
      utf8Continue_tail v 64 _ 1 1 _ (by omega), h]
    simp [utf8Continue, hof]

theorem utf8Lead?_eq_some {b : UInt8} {lead : Utf8Lead} (h : utf8Lead? b = some lead) :
    0x80 ≤ lead.low.toNat ∧ lead.high.toNat ≤ 0xBF ∧
      (lead.rest = 1 ∧ 0xC2 ≤ b.toNat ∧ b.toNat < 0xE0 ∧ lead.bits = b.toNat - 0xC0 ∨
      lead.rest = 2 ∧ 0xE0 ≤ b.toNat ∧ b.toNat < 0xF0 ∧ lead.bits = b.toNat - 0xE0 ∧
        (b.toNat = 0xE0 → 0xA0 ≤ lead.low.toNat) ∧ (b.toNat = 0xED → lead.high.toNat ≤ 0x9F) ∨
      lead.rest = 3 ∧ 0xF0 ≤ b.toNat ∧ b.toNat ≤ 0xF4 ∧ lead.bits = b.toNat - 0xF0 ∧
        (b.toNat = 0xF0 → 0x90 ≤ lead.low.toNat) ∧ (b.toNat = 0xF4 → lead.high.toNat ≤ 0x8F)) := by
  simp only [utf8Lead?, UInt8.lt_iff_toNat_lt, ← UInt8.toNat_inj, UInt8.toNat_ofNat] at h
  have hb := b.toNat_lt
  repeat' split at h
  all_goals cases h
  all_goals simp
  all_goals omega

theorem utf8Continue_eq_some {low high : UInt8} {bits taken k n : Nat} {r : Bytes} {c : Char}
    (h : utf8Continue low high bits taken (k + 1) r = (some c, n)) :
    ∃ b s, r = b :: s ∧ low.toNat ≤ b.toNat ∧ b.toNat ≤ high.toNat ∧
      utf8Continue 0x80 0xBF (64 * bits + b.toNat % 64) (taken + 1) k s = (some c, n) := by
  cases r with
  | nil => simp [utf8Continue] at h
  | cons b s =>
    rw [utf8Continue] at h
    split at h
    · rename_i hb
      rw [Bool.and_eq_true, decide_eq_true_eq, decide_eq_true_eq] at hb
      exact ⟨b, s, rfl, UInt8.le_iff_toNat_le.1 hb.1, UInt8.le_iff_toNat_le.1 hb.2, h⟩
    · simp at h

theorem toNat_ofNat {v : Nat} (h : v < 0xD800 ∨ 0xDFFF < v ∧ v < 0x110000) : (Char.ofNat v).toNat = v := by
  have hv : v.isValidChar := h
  rw [Char.ofNat, dif_pos hv]
  rfl

/-- A character that is read takes exactly the bytes of its encoded form. -/
theorem encode_utf8First {b : UInt8} {r : Bytes} {c : Char} {n : Nat} (h : utf8First b r = (some c, n)) :
    String.utf8EncodeChar c ++ r.drop n = b :: r := by
  have hb := b.toNat_lt
  rw [utf8First] at h
  split at h
  · rename_i hlt
    rw [UInt8.lt_iff_toNat_lt] at hlt
    simp only [UInt8.toNat_ofNat] at hlt
    simp only [Prod.mk.injEq, Option.some.injEq] at h
    obtain ⟨rfl, rfl⟩ := h
    have hc : (Char.ofNat b.toNat).val.toNat = b.toNat := toNat_ofNat (by omega)
    simp only [String.utf8EncodeChar, hc]
    rw [if_pos (by omega)]
    simp
  · split at h
    · simp at h
    · rename_i lead hlead
      obtain ⟨hlow, hhigh, ⟨hr, hl⟩ | ⟨hr, hl⟩ | ⟨hr, hl⟩⟩ := utf8Lead?_eq_some hlead
      · rw [hr] at h
        obtain ⟨x, s, rfl, hx, hx', h⟩ := utf8Continue_eq_some h
        simp only [utf8Continue, Prod.mk.injEq, Option.some.injEq] at h
        obtain ⟨rfl, rfl⟩ := h
        have hc : (Char.ofNat (64 * lead.bits + x.toNat % 64)).val.toNat = 64 * lead.bits + x.toNat % 64 :=
          toNat_ofNat (by omega)
        simp only [String.utf8EncodeChar, hc]
        rw [if_neg (by omega), if_pos (by omega)]
        simp [← UInt8.toNat_inj]
        omega
      · rw [hr] at h
        obtain ⟨x, s, rfl, hx, hx', h⟩ := utf8Continue_eq_some h
        obtain ⟨y, s, rfl, hy, hy', h⟩ := utf8Continue_eq_some h
        simp only [utf8Continue, Prod.mk.injEq, Option.some.injEq] at h
        obtain ⟨rfl, rfl⟩ := h
        simp only [UInt8.toNat_ofNat] at hy hy'
        have hc := toNat_ofNat (v := 64 * (64 * lead.bits + x.toNat % 64) + y.toNat % 64) (by omega)
        rw [String.utf8EncodeChar, show (Char.ofNat _).val.toNat = _ from hc]
        rw [if_neg (by omega), if_neg (by omega), if_pos (by omega)]
        simp [← UInt8.toNat_inj]
        omega
      · rw [hr] at h
        obtain ⟨x, s, rfl, hx, hx', h⟩ := utf8Continue_eq_some h
        obtain ⟨y, s, rfl, hy, hy', h⟩ := utf8Continue_eq_some h
        obtain ⟨z, s, rfl, hz, hz', h⟩ := utf8Continue_eq_some h
        simp only [utf8Continue, Prod.mk.injEq, Option.some.injEq] at h
        obtain ⟨rfl, rfl⟩ := h
        simp only [UInt8.toNat_ofNat] at hy hy' hz hz'
        have hc := toNat_ofNat (v := 64 * (64 * (64 * lead.bits + x.toNat % 64) + y.toNat % 64) + z.toNat % 64)
          (by omega)
        rw [String.utf8EncodeChar, show (Char.ofNat _).val.toNat = _ from hc]
        rw [if_neg (by omega), if_neg (by omega), if_neg (by omega)]
        simp [← UInt8.toNat_inj]
        omega

theorem ofUtf8Skip_append (t u : Bytes) : ofUtf8Skip t.length (t ++ u) = ofUtf8 u := by
  induction t with
  | nil => rfl
  | cons b t ih => exact ih

theorem ofUtf8_toUtf8_append (t : Text) (r : Bytes) : ofUtf8 (toUtf8 t ++ r) = t ++ ofUtf8 r := by
  induction t with
  | nil => rfl
  | cons c t ih =>
    obtain ⟨b, u, he, hf⟩ := utf8First_encode c (toUtf8 t ++ r)
    rw [toUtf8, List.flatMap_cons, he, List.append_assoc]
    show ofUtf8Skip 0 (b :: (u ++ (toUtf8 t ++ r))) = _
    rw [ofUtf8Skip, hf]
    exact congrArg (c :: ·) ((ofUtf8Skip_append u _).trans ih)

theorem ofUtf8_toUtf8 (t : Text) : ofUtf8 (toUtf8 t) = t := by
  simpa [ofUtf8, ofUtf8Skip] using ofUtf8_toUtf8_append t []

end ParserRelay.Text
