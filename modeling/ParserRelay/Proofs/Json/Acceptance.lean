import Mathlib.Data.List.TakeWhile
import ParserRelay.Proofs.Json.Grammar
import ParserRelay.Proofs.Text.Join
/-!
# Every document of the grammar is read

What the grammar derives, the reader returns, with whatever follows left over. Each scanner takes the
longest run it can, so what follows a value must not go on with it: it begins with white space, with
a comma or with a closing bracket. Two steps of fuel for each character are enough.
-/
namespace ParserRelay.Json
open Text (joinWith prefix_joinWith)

def delimiters : Text := [' ', '\t', '\n', '\r', ',', ']', '}']

def Delimited (r : WideText) : Prop := ∀ c u, r = c :: u → ∃ e ∈ delimiters, c = .char e

theorem delimited_spaces {w : WideText} (h : Spaces w) : Delimited w := by
  intro c u hc
  have hs := h c (by simp [hc])
  simp only [isSpace, Bool.or_eq_true, decide_eq_true_eq] at hs
  rcases hs with ((rfl | rfl) | rfl) | rfl
  · exact ⟨' ', by decide, rfl⟩
  · exact ⟨'\t', by decide, rfl⟩
  · exact ⟨'\n', by decide, rfl⟩
  · exact ⟨'\r', by decide, rfl⟩

theorem delimited_append {w : WideText} (h : Spaces w) {e : Char} (he : e ∈ delimiters)
    (r : WideText) : Delimited (w ++ .char e :: r) := by
  intro c u hc
  cases w with
  | nil =>
    obtain ⟨rfl, -⟩ := List.cons.inj hc
    exact ⟨e, he, rfl⟩
  | cons x w =>
    obtain ⟨rfl, -⟩ := List.cons.inj hc
    exact delimited_spaces h x w rfl

section Numbers

def NoDigit (r : WideText) : Prop := ∀ c u, r = .char c :: u → c.isDigit = false

theorem noDigit_cons {c : Char} (h : c.isDigit = false) (r : WideText) : NoDigit (.char c :: r) := by
  intro e u he
  simp only [List.cons.injEq, CodePoint.char.injEq] at he
  rwa [← he.1]

theorem Delimited.noDigit {r : WideText} (h : Delimited r) : NoDigit r := by
  intro c u hc
  obtain ⟨e, he, hce⟩ := h _ _ hc
  have hall : (delimiters.all fun e => !e.isDigit) = true := by decide
  rw [CodePoint.char.inj hce]
  simpa using List.all_eq_true.1 hall e he

theorem Delimited.head_ne {r : WideText} (h : Delimited r) {c : Char} (hc : c ∉ delimiters) :
    r.head? ≠ some (.char c) := by
  intro hr
  obtain ⟨u, rfl⟩ := List.head?_eq_some_iff.1 hr
  obtain ⟨e, he, hce⟩ := h _ _ rfl
  exact hc (CodePoint.char.inj hce ▸ he)

theorem digits_append {ds : Text} (h : ∀ c ∈ ds, c.isDigit) {r : WideText} (hr : NoDigit r) :
    digits (WideText.ofText ds ++ r) = (ds, r) := by
  induction ds with
  | nil =>
    cases r with
    | nil => rfl
    | cons c r =>
      cases c with
      | lone s => rfl
      | char c => simp [digits, hr c r rfl]
  | cons c ds ih =>
    have hd := ih fun e he => h e (List.mem_cons_of_mem _ he)
    simp [digits, h c (List.mem_cons_self ..), hd]

theorem Digits.cons {ds : Text} (h : Digits ds) : ∃ c r, ds = c :: r ∧ c.isDigit := by
  obtain ⟨c, r, rfl⟩ := List.exists_cons_of_ne_nil h.1
  exact ⟨c, r, rfl, h.2 c (List.mem_cons_self ..)⟩

theorem WholePart.cons {w : Text} (h : WholePart w) : ∃ c r, w = c :: r ∧ c.isDigit := by
  cases h with
  | zero => exact ⟨'0', [], rfl, rfl⟩
  | natural h _ => exact h.cons

theorem whole?_of_form {w : Text} (h : WholePart w) {r : WideText} (hr : NoDigit r) :
    whole? (WideText.ofText w ++ r) = some (w, r) := by
  cases h with
  | zero => rfl
  | natural hd h0 =>
    obtain ⟨c, ds, rfl, -⟩ := hd.cons
    have hne : ∀ u, WideText.ofText (c :: ds) ++ r = .char '0' :: u → False := by
      intro u hu
      simp only [WideText.ofText_cons, List.cons_append, List.cons.injEq,
        CodePoint.char.injEq] at hu
      exact h0 (by rw [hu.1]; rfl)
    rw [whole?.eq_2 _ hne, digits_append hd.2 hr]

theorem fraction_of_form {f t : Text} (h : FractionPart f t) {r : WideText} (hr : NoDigit r)
    (hp : r.head? ≠ some (.char '.')) : fraction (WideText.ofText t ++ r) = (f, r) := by
  cases h with
  | none =>
    refine fraction.eq_2 r fun u hu => hp ?_
    rw [hu, List.head?_cons]
  | some hd =>
    obtain ⟨c, ds, rfl, -⟩ := hd.cons
    rw [WideText.ofText_cons, List.cons_append, fraction.eq_1, digits_append hd.2 hr]

theorem signedDigits?_of_form {s ds : Text} {negative : Bool} (hs : (s, negative) ∈ exponentSigns)
    (hd : Digits ds) {r : WideText} (hr : NoDigit r) :
    signedDigits? (WideText.ofText (s ++ ds) ++ r) = some ((negative, ds), r) := by
  obtain ⟨c, u, rfl, hc⟩ := hd.cons
  have hscan := digits_append hd.2 hr
  simp only [exponentSigns, List.mem_cons, Prod.mk.injEq, List.not_mem_nil, or_false] at hs
  rcases hs with ⟨rfl, rfl⟩ | ⟨rfl, rfl⟩ | ⟨rfl, rfl⟩
  · have hplus : c ≠ '+' := by rintro rfl; exact absurd hc (by decide)
    have hminus : c ≠ '-' := by rintro rfl; exact absurd hc (by decide)
    rw [List.nil_append, signedDigits?.eq_3 _ (by simpa using hplus) (by simpa using hminus), hscan]
    rfl
  · rw [List.singleton_append, WideText.ofText_cons, List.cons_append, signedDigits?.eq_1, hscan]
    rfl
  · rw [List.singleton_append, WideText.ofText_cons, List.cons_append, signedDigits?.eq_2, hscan]
    rfl

theorem exponent_of_form {e : Option (Bool × Text)} {t : Text} (h : ExponentPart e t)
    {r : WideText} (hr : NoDigit r)
    (he : r.head? ≠ some (.char 'e')) (hE : r.head? ≠ some (.char 'E')) :
    exponent (WideText.ofText t ++ r) = (e, r) := by
  cases h with
  | none =>
    cases r with
    | nil => rfl
    | cons c r =>
      have hc : ¬ (c = .char 'e' ∨ c = .char 'E') := by
        simpa using And.intro he hE
      exact (exponent.eq_2 c r).trans (if_neg hc)
  | @some mark s ds negative hm hs hd =>
    have hc : CodePoint.char mark = .char 'e' ∨ CodePoint.char mark = .char 'E' := by
      simpa using hm
    rw [WideText.ofText_cons, List.cons_append, exponent.eq_2, if_pos hc,
      signedDigits?_of_form hs hd hr]

theorem number?_of_form {n : NumberText} {t : Text} (h : NumberForm n t) {r : WideText}
    (hr : Delimited r) : number? (WideText.ofText t ++ r) = some (n, r) := by
  cases h with
  | @mk negative w f ft et e hw hf he =>
    have hexp := exponent_of_form he hr.noDigit (hr.head_ne (by decide)) (hr.head_ne (by decide))
    have hrest : NoDigit (WideText.ofText et ++ r) ∧
        (WideText.ofText et ++ r).head? ≠ some (.char '.') := by
      cases he with
      | none => exact ⟨hr.noDigit, hr.head_ne (by decide)⟩
      | some hm _ _ =>
        simp only [List.mem_cons, List.not_mem_nil, or_false] at hm
        rcases hm with rfl | rfl <;> exact ⟨noDigit_cons rfl _, by simp⟩
    have hfrac := fraction_of_form hf hrest.1 hrest.2
    have hpoint : NoDigit (WideText.ofText ft ++ (WideText.ofText et ++ r)) := by
      cases hf with
      | none => exact hrest.1
      | some _ => exact noDigit_cons rfl _
    have hwhole := whole?_of_form hw hpoint
    cases negative with
    | true => simp [number?, hwhole, hfrac, hexp]
    | false =>
      obtain ⟨c, u, rfl, hc⟩ := hw.cons
      have hminus : c ≠ '-' := by rintro rfl; exact absurd hc (by decide)
      simp only [WideText.ofText_cons, List.cons_append] at hwhole
      simp [number?, hminus, hwhole, hfrac, hexp]

theorem NumberForm.cons {n : NumberText} {t : Text} (h : NumberForm n t) :
    ∃ c r, c.isDigit ∧ (t = c :: r ∨ t = '-' :: c :: r) := by
  cases h with
  | @mk negative w f ft et e hw hf he =>
    obtain ⟨c, u, rfl, hc⟩ := hw.cons
    cases negative with
    | true => exact ⟨c, u ++ (ft ++ et), hc, .inr rfl⟩
    | false => exact ⟨c, u ++ (ft ++ et), hc, .inl rfl⟩

end Numbers

section Scalars

def leads : Text := ['"', '[', '{', '-', 'n', 't', 'f', 'N', 'I']

def Leads (c : Char) : Prop := c ∈ leads ∨ c.isDigit

instance : DecidablePred Leads := fun _ => inferInstanceAs (Decidable (_ ∨ _))

theorem Leads.ne {c e : Char} (h : Leads c) (he : ¬ Leads e) : c ≠ e := fun hc => he (hc ▸ h)

theorem Leads.not_space {c : Char} (h : Leads c) : isSpace (.char c) = false := by
  have hb := h.ne (e := ' ') (by decide)
  have ht := h.ne (e := '\t') (by decide)
  have hn := h.ne (e := '\n') (by decide)
  have hr := h.ne (e := '\r') (by decide)
  simp [isSpace, hb, ht, hn, hr]

theorem Leads.not_blank {c : Char} (h : Leads c) : Text.isBlank (CodePoint.char c) = false := by
  rcases h with h | h
  · have hall : (leads.all fun e => !Text.isBlank (CodePoint.char e)) = true := by decide
    simpa using List.all_eq_true.1 hall c h
  · have hdigits : ∀ n : Fin 10, Text.blankRanges.mem (0x30 + n) = false := by decide
    obtain ⟨hlow, hhigh⟩ := Text.range_of_isDigit h
    have hn := hdigits ⟨c.toNat - 0x30, by omega⟩
    rwa [Nat.add_sub_cancel' hlow] at hn

theorem named?_of_mem {name : Text} {v : Json} (h : (name, v) ∈ namedValues) (r : WideText) :
    named? (WideText.ofText name ++ r) = some (v, r) := by
  simp only [namedValues, List.mem_cons, Prod.mk.injEq, List.not_mem_nil, or_false] at h
  rcases h with ⟨rfl, rfl⟩ | ⟨rfl, rfl⟩ | ⟨rfl, rfl⟩ | ⟨rfl, rfl⟩ | ⟨rfl, rfl⟩ | ⟨rfl, rfl⟩ <;> rfl

theorem named?_of_number {n : NumberText} {t : Text} (h : NumberForm n t) (r : WideText) :
    named? (WideText.ofText t ++ r) = none := by
  obtain ⟨c, u, hc, ht⟩ := h.cons
  have hne : ∀ e : Char, e.isDigit = false → e ≠ c := by
    rintro e he rfl
    simp [hc] at he
  have hn := hne 'n' rfl
  have ht' := hne 't' rfl
  have hf := hne 'f' rfl
  have hN := hne 'N' rfl
  have hI := hne 'I' rfl
  have hm := hne '-' rfl
  rcases ht with rfl | rfl <;>
    simp [named?, namedValues, Text.after?, hn, ht', hf, hN, hI, hm]

theorem scalar_of_named (d : Dialect) {name : Text} {v : Json} (h : (name, v) ∈ namedValues)
    (r : WideText) : scalar d (WideText.ofText name ++ r) = .ok (v, r) := by
  rw [scalar, named?_of_mem h]

theorem scalar_of_number {d : Dialect} {n : NumberText} {t : Text} (h : NumberForm n t)
    (hd : n.exceeds d.length = false) {r : WideText} (hr : Delimited r) :
    scalar d (WideText.ofText t ++ r) = .ok (n.toJson, r) := by
  simp [scalar, named?_of_number h, number?_of_form h hr, hd]

theorem named_cons {name : Text} {v : Json} (h : (name, v) ∈ namedValues) :
    ∃ c r, name = c :: r ∧ Leads c ∧ c ∉ ['"', '[', '{'] := by
  simp only [namedValues, List.mem_cons, Prod.mk.injEq, List.not_mem_nil, or_false] at h
  rcases h with ⟨rfl, -⟩ | ⟨rfl, -⟩ | ⟨rfl, -⟩ | ⟨rfl, -⟩ | ⟨rfl, -⟩ | ⟨rfl, -⟩ <;>
    exact ⟨_, _, rfl, by decide, by decide⟩

theorem number_cons {n : NumberText} {t : Text} (h : NumberForm n t) :
    ∃ c r, t = c :: r ∧ Leads c ∧ c ∉ ['"', '[', '{'] := by
  obtain ⟨c, u, hc, rfl | rfl⟩ := h.cons
  · refine ⟨c, u, rfl, .inr hc, ?_⟩
    simp only [List.mem_cons, List.not_mem_nil, or_false]
    rintro (rfl | rfl | rfl) <;> exact absurd hc (by decide)
  · exact ⟨'-', c :: u, rfl, by decide, by decide⟩

end Scalars

section Values

variable {d : Dialect}

theorem value_scalar {c : Char} (hc : c ∉ ['"', '[', '{']) (room fuel : ℕ) (t : WideText) :
    value d room (fuel + 1) (.char c :: t) = scalar d (.char c :: t) := by
  simp only [List.mem_cons, List.not_mem_nil, or_false, not_or] at hc
  obtain ⟨hq, hb, ho⟩ := hc
  exact value.eq_5 d room _ fuel (by simp [hq]) (by simp [hb]) (by simp [ho])

theorem value_array {t : WideText} (h : (skip t).head? ≠ some (.char ']')) (room fuel : ℕ) :
    value d (room + 1) (fuel + 1) (.char '[' :: t) = (items d room fuel (skip t)).map .arr := by
  rw [value.eq_3]
  split
  case h_1 hs => exact absurd (by rw [hs]; rfl) h
  case h_2 => rfl

theorem value_object {t : WideText} (h : (skip t).head? ≠ some (.char '}')) (room fuel : ℕ) :
    value d (room + 1) (fuel + 1) (.char '{' :: t) =
      (members d room fuel (skip t)).map fun m => .obj (Members.ofWritten m) := by
  rw [value.eq_4]
  split
  case h_1 hs => exact absurd (by rw [hs]; rfl) h
  case h_2 => rfl

theorem value_emptyArray {room : ℕ} {t r : WideText} (h : skip t = .char ']' :: r)
    (hroom : d.nesting.admitsEmpty room) (fuel : ℕ) :
    value d room (fuel + 1) (.char '[' :: t) = .ok (.arr [], r) := by
  rw [value.eq_3, h]
  exact if_pos hroom

theorem value_emptyObject {room : ℕ} {t r : WideText} (h : skip t = .char '}' :: r)
    (hroom : d.nesting.admitsEmpty room) (fuel : ℕ) :
    value d room (fuel + 1) (.char '{' :: t) = .ok (.obj [], r) := by
  rw [value.eq_4, h]
  exact if_pos hroom

theorem Value.cons {k : ℕ} {t : WideText} {v : Json} (h : Value d k t v) :
    ∃ c r, t = .char c :: r ∧ Leads c := by
  cases h with
  | named hm =>
    obtain ⟨c, r, rfl, hc, -⟩ := named_cons hm
    exact ⟨c, _, rfl, hc⟩
  | number hn _ =>
    obtain ⟨c, r, rfl, hc, -⟩ := number_cons hn
    exact ⟨c, _, rfl, hc⟩
  | string _ => exact ⟨'"', _, rfl, by decide⟩
  | emptyArray _ _ => exact ⟨'[', _, rfl, by decide⟩
  | array _ _ _ => exact ⟨'[', _, rfl, by decide⟩
  | emptyObject _ _ => exact ⟨'{', _, rfl, by decide⟩
  | object _ _ _ _ => exact ⟨'{', _, rfl, by decide⟩

/-- The reader takes the value from the front of any longer text. -/
structure Reads (d : Dialect) (k : ℕ) (t : WideText) (v : Json) : Prop where
  leads : ∃ c r, t = .char c :: r ∧ Leads c
  value : ∀ room fuel r, k ≤ room → 2 * t.length ≤ fuel + 1 → Delimited r →
    value d room fuel (t ++ r) = .ok (v, r)

namespace Element

variable {e : Element} {k : ℕ}

theorem skip_written (hs : e.Spaced) (he : Reads d k e.text e.value) (r : WideText) :
    skip (e.written ++ r) = e.text ++ (e.after ++ r) := by
  obtain ⟨c, u, ht, hc⟩ := he.leads
  simpa [written, ht] using skip_spaces hs.1 hc.not_space (u ++ (e.after ++ r))

theorem length_pos (he : Reads d k e.text e.value) : 0 < e.text.length := by
  obtain ⟨c, u, ht, -⟩ := he.leads
  simp [ht]

theorem value_written (hs : e.Spaced) (he : Reads d k e.text e.value) {room fuel : ℕ}
    (hk : k ≤ room) (hf : 2 * e.text.length ≤ fuel + 1) {c : Char} (hc : c ∈ delimiters)
    (r : WideText) : Json.value d room fuel (skip (e.written ++ .char c :: r)) =
      .ok (e.value, e.after ++ .char c :: r) := by
  rw [skip_written hs he]
  exact he.value room fuel _ hk hf (delimited_append hs.2 hc r)

end Element

theorem head_skip_elements {k : ℕ} {es : List Element} (hne : es ≠ []) (hs : ∀ e ∈ es, e.Spaced)
    (he : ∀ e ∈ es, Reads d k e.text e.value) (r : WideText) :
    (skip (joinWith [.char ','] (es.map Element.written) ++ r)).head? ≠ some (.char ']') := by
  obtain ⟨e, es, rfl⟩ := List.exists_cons_of_ne_nil hne
  have hre := he e (List.mem_cons_self ..)
  obtain ⟨u, hu⟩ := prefix_joinWith [.char ','] e.written (es.map Element.written)
  obtain ⟨c, w, ht, hc⟩ := hre.leads
  rw [List.map_cons, ← hu, List.append_assoc,
    Element.skip_written (hs e (List.mem_cons_self ..)) hre, ht]
  simpa using hc.ne (by decide)

theorem items_of_elements {k room : ℕ} (hk : k ≤ room) {es : List Element} (hne : es ≠ [])
    (hs : ∀ e ∈ es, e.Spaced) (he : ∀ e ∈ es, Reads d k e.text e.value) (r : WideText) {fuel : ℕ}
    (hf : 2 * (joinWith [.char ','] (es.map Element.written)).length ≤ fuel) :
    items d room fuel
      (skip (joinWith [.char ','] (es.map Element.written) ++ .char ']' :: r)) =
        .ok (es.map Element.value, r) := by
  induction es generalizing fuel with
  | nil => exact absurd rfl hne
  | cons e es ih =>
    have hse := hs e (List.mem_cons_self ..)
    have hre := he e (List.mem_cons_self ..)
    have hlen := Element.length_pos hre
    cases es with
    | nil =>
      simp only [List.map_cons, List.map_nil, joinWith] at hf ⊢
      simp only [Element.written, List.length_append] at hf
      obtain ⟨fuel, rfl⟩ : ∃ n, fuel = n + 1 := ⟨fuel - 1, by omega⟩
      rw [items.eq_2, Element.value_written hse hre hk (by omega) (by decide)]
      simp only [skip_spaces hse.2 (c := .char ']') rfl]
    | cons e' es =>
      have hjoin : joinWith [.char ','] ((e :: e' :: es).map Element.written) =
          e.written ++ .char ',' :: joinWith [.char ','] ((e' :: es).map Element.written) := by
        simp [joinWith]
      -- The comma pays for the step into the rest.
      rw [hjoin] at hf ⊢
      simp only [List.length_append, List.length_cons, Element.written] at hf
      obtain ⟨fuel, rfl⟩ : ∃ n, fuel = n + 1 := ⟨fuel - 1, by omega⟩
      have hfuel : 2 * (joinWith [.char ','] ((e' :: es).map Element.written)).length ≤ fuel := by
        omega
      have hrest := ih (by simp) (fun f hm => hs f (List.mem_cons_of_mem _ hm))
        (fun f hm => he f (List.mem_cons_of_mem _ hm)) hfuel
      rw [List.append_assoc, List.cons_append, items.eq_2,
        Element.value_written hse hre hk (by omega) (by decide)]
      simp only [skip_spaces hse.2 (c := .char ',') rfl, hrest]
      rfl

theorem Member.skip_written {m : Member} (hm : m.Keyed d) (r : WideText) :
    skip (m.written ++ r) = .char '"' ::
      (m.body ++ .char '"' :: (m.after ++ .char ':' :: (m.element.written ++ r))) := by
  simpa [Member.written] using skip_spaces hm.before (c := .char '"') rfl
    (m.body ++ .char '"' :: (m.after ++ .char ':' :: (m.element.written ++ r)))

theorem head_skip_members {ms : List Member} (hne : ms ≠ []) (hm : ∀ m ∈ ms, m.Keyed d)
    (r : WideText) :
    (skip (joinWith [.char ','] (ms.map Member.written) ++ r)).head? ≠ some (.char '}') := by
  obtain ⟨m, ms, rfl⟩ := List.exists_cons_of_ne_nil hne
  obtain ⟨u, hu⟩ := prefix_joinWith [.char ','] m.written (ms.map Member.written)
  rw [List.map_cons, ← hu, List.append_assoc, Member.skip_written (hm m (List.mem_cons_self ..))]
  simp

theorem members_of_member {k room : ℕ} (hk : k ≤ room) {m : Member} (hm : m.Keyed d)
    (he : Reads d k m.element.text m.element.value) {fuel : ℕ}
    (hf : 2 * m.element.text.length ≤ fuel + 1) {c : Char} (hc : c ∈ delimiters)
    (hspace : isSpace (.char c) = false) (r : WideText) :
    members d room (fuel + 1) (skip (m.written ++ .char c :: r)) =
      match (CodePoint.char c :: r : WideText) with
      | .char '}' :: r => .ok ([m.entry], r)
      | .char ',' :: r => (members d room fuel (skip r)).map (m.entry :: ·)
      | r => .error ⟨.expectedComma, r.length⟩ := by
  rw [Member.skip_written hm, members.eq_2, string_of_form hm.body]
  simp only [skip_spaces hm.after (c := .char ':') rfl,
    Element.value_written hm.element he hk hf hc, skip_spaces hm.element.2 hspace]
  rfl

theorem members_of_members {k room : ℕ} (hk : k ≤ room) {ms : List Member} (hne : ms ≠ [])
    (hm : ∀ m ∈ ms, m.Keyed d) (he : ∀ m ∈ ms, Reads d k m.element.text m.element.value)
    (r : WideText) {fuel : ℕ}
    (hf : 2 * (joinWith [.char ','] (ms.map Member.written)).length ≤ fuel) :
    members d room fuel
      (skip (joinWith [.char ','] (ms.map Member.written) ++ .char '}' :: r)) =
        .ok (ms.map Member.entry, r) := by
  induction ms generalizing fuel with
  | nil => exact absurd rfl hne
  | cons m ms ih =>
    have hkm := hm m (List.mem_cons_self ..)
    have hre := he m (List.mem_cons_self ..)
    cases ms with
    | nil =>
      simp only [List.map_cons, List.map_nil, joinWith] at hf ⊢
      simp only [Member.written, Element.written, List.length_append, List.length_cons] at hf
      obtain ⟨fuel, rfl⟩ : ∃ n, fuel = n + 1 := ⟨fuel - 1, by omega⟩
      rw [members_of_member hk hkm hre (by omega) (by decide) rfl]
      rfl
    | cons m' ms =>
      have hjoin : joinWith [.char ','] ((m :: m' :: ms).map Member.written) =
          m.written ++ .char ',' :: joinWith [.char ','] ((m' :: ms).map Member.written) := by
        simp [joinWith]
      rw [hjoin] at hf ⊢
      simp only [List.length_append, List.length_cons, Member.written, Element.written] at hf
      obtain ⟨fuel, rfl⟩ : ∃ n, fuel = n + 1 := ⟨fuel - 1, by omega⟩
      have hfuel : 2 * (joinWith [.char ','] ((m' :: ms).map Member.written)).length ≤ fuel := by
        omega
      have hrest := ih (by simp) (fun f hf => hm f (List.mem_cons_of_mem _ hf))
        (fun f hf => he f (List.mem_cons_of_mem _ hf)) hfuel
      rw [List.append_assoc, List.cons_append,
        members_of_member hk hkm hre (by omega) (by decide) rfl]
      simp only [hrest]
      rfl

/-- The reader accepts what the grammar derives. -/
theorem reads_of_value {k : ℕ} {t : WideText} {v : Json} (h : Value d k t v) : Reads d k t v := by
  refine ⟨h.cons, ?_⟩
  -- Only numbers need what follows to be delimited; the brackets of a container pay for its steps.
  induction h with
  | @named k name v hm =>
    intro room fuel r _ hf _
    obtain ⟨c, u, rfl, -, hc⟩ := named_cons hm
    rw [WideText.ofText_cons, List.length_cons] at hf
    obtain ⟨fuel, rfl⟩ : ∃ n, fuel = n + 1 := ⟨fuel - 1, by omega⟩
    rw [WideText.ofText_cons, List.cons_append, value_scalar hc]
    exact scalar_of_named d hm r
  | @number k n t hn hd =>
    intro room fuel r _ hf hr
    obtain ⟨c, u, rfl, -, hc⟩ := number_cons hn
    rw [WideText.ofText_cons, List.length_cons] at hf
    obtain ⟨fuel, rfl⟩ : ∃ n, fuel = n + 1 := ⟨fuel - 1, by omega⟩
    rw [WideText.ofText_cons, List.cons_append, value_scalar hc]
    exact scalar_of_number hn hd hr
  | @string k s b hs =>
    intro room fuel r _ hf _
    rw [List.length_cons] at hf
    obtain ⟨fuel, rfl⟩ : ∃ n, fuel = n + 1 := ⟨fuel - 1, by omega⟩
    rw [List.cons_append, List.append_assoc, List.singleton_append, value.eq_2, string_of_form hs]
    rfl
  | @emptyArray k w hroom hw =>
    intro room fuel r hk hf _
    rw [enclosed, List.length_cons] at hf
    obtain ⟨fuel, rfl⟩ : ∃ n, fuel = n + 1 := ⟨fuel - 1, by omega⟩
    rw [enclosed, joinWith, List.cons_append, List.append_assoc, List.singleton_append]
    exact value_emptyArray (skip_spaces hw rfl r) (NestingRule.admitsEmpty_mono hroom hk) fuel
  | @array k es hne hs hv ih =>
    intro room fuel r hk hf _
    have he : ∀ e ∈ es, Reads d k e.text e.value := fun e hm => ⟨(hv e hm).cons, ih e hm⟩
    simp only [enclosed, List.length_cons, List.length_append, List.length_nil] at hf
    obtain ⟨fuel, rfl⟩ : ∃ n, fuel = n + 1 := ⟨fuel - 1, by omega⟩
    obtain ⟨room, rfl⟩ : ∃ n, room = n + 1 := ⟨room - 1, by omega⟩
    rw [enclosed, List.cons_append, List.append_assoc, List.singleton_append,
      value_array (head_skip_elements hne hs he _),
      items_of_elements (by omega) hne hs he r (by omega)]
    rfl
  | @emptyObject k w hroom hw =>
    intro room fuel r hk hf _
    rw [enclosed, List.length_cons] at hf
    obtain ⟨fuel, rfl⟩ : ∃ n, fuel = n + 1 := ⟨fuel - 1, by omega⟩
    rw [enclosed, joinWith, List.cons_append, List.append_assoc, List.singleton_append]
    exact value_emptyObject (skip_spaces hw rfl r) (NestingRule.admitsEmpty_mono hroom hk) fuel
  | @object k ms _ hne hm hv hkept ih =>
    intro room fuel r hk hf _
    obtain rfl := hkept.eq_ofWritten
    have he : ∀ m ∈ ms, Reads d k m.element.text m.element.value :=
      fun m hm => ⟨(hv m hm).cons, ih m hm⟩
    simp only [enclosed, List.length_cons, List.length_append, List.length_nil] at hf
    obtain ⟨fuel, rfl⟩ : ∃ n, fuel = n + 1 := ⟨fuel - 1, by omega⟩
    obtain ⟨room, rfl⟩ : ∃ n, room = n + 1 := ⟨room - 1, by omega⟩
    rw [enclosed, List.cons_append, List.append_assoc, List.singleton_append,
      value_object (head_skip_members hne hm _),
      members_of_members (by omega) hne hm he r (by omega)]
    rfl

theorem skip_of_spaces {w : WideText} (h : Spaces w) : skip w = [] := by
  rw [skip, List.dropWhile_eq_nil_iff]
  exact h

theorem Element.head_written {e : Element} (hs : e.Spaced) {k : ℕ}
    (he : Reads d k e.text e.value) : e.written.head? ≠ some (.char (Char.ofNat 0xFEFF)) := by
  obtain ⟨c, u, ht, hc⟩ := he.leads
  obtain ⟨before, text, after, v⟩ := e
  cases before with
  | nil =>
    simp only at ht
    simpa [written, ht] using hc.ne (by decide)
  | cons s before =>
    intro h
    rw [written, List.cons_append, List.head?_cons, Option.some.injEq] at h
    exact absurd (h ▸ hs.1 s (List.mem_cons_self ..)) (by decide)

theorem read_of_document {t : WideText} {v : Json} (h : Document d t v) : read d t = .ok v := by
  cases h with
  | @mk e hs hv =>
    have he := reads_of_value hv
    have hlen : 2 * e.text.length ≤ fuelFor e.written + 1 := by
      simp only [fuelFor, Element.written, List.length_append]
      omega
    have hskip : skip e.written = e.text ++ e.after := by
      simpa using Element.skip_written hs he []
    rw [read, if_neg (Element.head_written hs he), hskip,
      he.value d.nesting.limit _ e.after (Nat.le_refl _) hlen (delimited_spaces hs.2)]
    simp only [skip_of_spaces hs.2]

end Values

end ParserRelay.Json
