import ParserRelay.Proofs.Json.Derivation
/-!
# Places of a document

A scan that knows no more than marks, backslashes and brackets tells of every place of a text whether
it lies within a string, and how many brackets are open there. The numbers and the nesting of a text
are what stands at its places, whether or not the text is a document.
-/
namespace ParserRelay.Json
open Text (joinWith)

inductive Standing
  | bare (depth : ℕ)
  | quoted (depth : ℕ)
  | escaped (depth : ℕ)

def openings : Text := ['[', '{']

def closings : Text := [']', '}']

def Standing.next : Standing → CodePoint → Standing
  | .bare k, c =>
    if c = .char '"' then .quoted k
    else if c ∈ WideText.ofText openings then .bare (k + 1)
    else if c ∈ WideText.ofText closings then .bare (k - 1)
    else .bare k
  | .quoted k, c =>
    if c = .char '"' then .bare k
    else if c = .char '\\' then .escaped k
    else .quoted k
  | .escaped k, _ => .quoted k

def Standing.after (s : Standing) (t : WideText) : Standing := t.foldl next s

/-- A place of a document outside of its strings: what comes before it and what stands there, and
how many brackets are open. -/
structure Place (document before t : WideText) (depth : ℕ) : Prop where
  parts : document = before ++ t
  standing : (Standing.bare 0).after before = .bare depth

/-- Nothing but the brackets that close a container stands behind more brackets. -/
def NestsWithin (limit : ℕ) (document : WideText) : Prop :=
  ∀ before c t depth, Place document before (c :: t) depth → isSpace c = false →
    c ∉ WideText.ofText closings → depth ≤ limit

def NumberChar (c : Char) : Prop := c.isDigit ∨ c ∈ ['+', '-', '.', 'e', 'E']

instance : DecidablePred NumberChar := fun _ => inferInstanceAs (Decidable (_ ∨ _))

/-- A number may begin behind the text. -/
def Separates (before : WideText) : Prop :=
  ∀ c, before.getLast? = some (.char c) → ¬ NumberChar c

/-- The longest number in front of a text. -/
def Foremost (n : NumberText) (t : WideText) : Prop :=
  ∃ w r, NumberForm n w ∧ t = WideText.ofText w ++ r ∧
    ∀ m u s, NumberForm m (w ++ u) → r = WideText.ofText u ++ s → u = []

def NumbersWithin (rule : LengthRule) (document : WideText) : Prop :=
  ∀ before t depth n, Place document before t depth → Separates before → Foremost n t →
    n.exceeds rule = false

variable {d : Dialect} {document before t u w : WideText} {k : ℕ} {s : Standing}

namespace Standing

theorem after_append (s : Standing) (t u : WideText) : s.after (t ++ u) = (s.after t).after u :=
  List.foldl_append

theorem after_cons (s : Standing) (c : CodePoint) (t : WideText) :
    s.after (c :: t) = (s.next c).after t := rfl

end Standing

def Balanced (t : WideText) : Prop := ∀ k, (Standing.bare k).after t = .bare k

namespace Balanced

theorem nil : Balanced [] := fun _ => rfl

theorem append (ht : Balanced t) (hu : Balanced u) : Balanced (t ++ u) := by
  intro k
  rw [Standing.after_append, ht, hu]

def Quiet (c : CodePoint) : Prop :=
  c ≠ .char '"' ∧ c ∉ WideText.ofText openings ∧ c ∉ WideText.ofText closings

instance : DecidablePred Quiet := fun _ => inferInstanceAs (Decidable (_ ∧ _))

theorem of_quiet (h : ∀ c ∈ t, Quiet c) : Balanced t := by
  intro k
  induction t with
  | nil => rfl
  | cons c t ih =>
    obtain ⟨hq, ho, hc⟩ := h c List.mem_cons_self
    rw [Standing.after_cons, Standing.next, if_neg hq, if_neg ho, if_neg hc]
    exact ih fun e he => h e (List.mem_cons_of_mem c he)

theorem cons {c : CodePoint} (hc : Quiet c) (h : Balanced t) : Balanced (c :: t) :=
  (of_quiet (List.forall_mem_singleton.mpr hc)).append h

theorem spaces (h : Spaces w) : Balanced w := by
  apply of_quiet
  intro c hc
  have hs := h c hc
  simp only [isSpace, Bool.or_eq_true, decide_eq_true_eq] at hs
  rcases hs with ((rfl | rfl) | rfl) | rfl <;> decide

theorem enclosed {o c : Char} (ho : o ∈ openings) (hc : c ∈ closings) {parts : List WideText}
    (h : Balanced (joinWith [.char ','] parts)) : Balanced (enclosed o c parts) := by
  intro k
  have hopen : (Standing.bare k).next (.char o) = .bare (k + 1) := by
    simp only [openings, List.mem_cons, List.not_mem_nil, or_false] at ho
    rcases ho with rfl | rfl <;> rfl
  have hclose : (Standing.bare (k + 1)).next (.char c) = .bare k := by
    simp only [closings, List.mem_cons, List.not_mem_nil, or_false] at hc
    rcases hc with rfl | rfl <;> rfl
  rw [Json.enclosed, Standing.after_cons, hopen, Standing.after_append, h, Standing.after_cons,
    hclose]
  rfl

theorem joined {parts : List WideText} (h : ∀ p ∈ parts, Balanced p) :
    Balanced (joinWith [.char ','] parts) := by
  induction parts with
  | nil => exact nil
  | cons p ps ih =>
    obtain ⟨hp, hps⟩ := List.forall_mem_cons.mp h
    cases ps with
    | nil => exact hp
    | cons q ps =>
      rw [joinWith]
      exact (hp.append (of_quiet (by decide))).append (ih hps)

end Balanced

section Strings

theorem after_quoted {c : CodePoint} (hq : c ≠ .char '"') (hb : c ≠ .char '\\') (k : ℕ) :
    (Standing.quoted k).next c = .quoted k := by
  rw [Standing.next, if_neg hq, if_neg hb]

theorem hexValue?_not_mark {c : Char} {i : ℕ} (h : Text.hexValue? c = some i) :
    CodePoint.char c ≠ .char '"' ∧ CodePoint.char c ≠ .char '\\' := by
  have hne {e : Char} (he : Text.hexValue? e = none) : CodePoint.char c ≠ .char e := by
    rintro hc
    rw [CodePoint.char.inj hc, he] at h
    cases h
  exact ⟨hne rfl, hne rfl⟩

theorem after_numeric (q : Text) (k : ℕ) :
    (Standing.quoted k).after (WideText.ofText ('\\' :: 'u' :: q)) =
      (Standing.quoted k).after (WideText.ofText q) := rfl

theorem Quad.after {q : Text} {n : ℕ} (h : Quad q n) (k : ℕ) :
    (Standing.quoted k).after (WideText.ofText ('\\' :: 'u' :: q)) = .quoted k := by
  cases h with
  | mk ha hb hc hd =>
    have step {c : Char} {i : ℕ} (hi : Text.hexValue? c = some i) (t : WideText) :
        (Standing.quoted k).after (.char c :: t) = (Standing.quoted k).after t := by
      obtain ⟨hq, hm⟩ := hexValue?_not_mark hi
      rw [Standing.after_cons, after_quoted hq hm]
    rw [after_numeric]
    simp only [WideText.ofText_cons, WideText.ofText_nil]
    rw [step ha, step hb, step hc, step hd]
    rfl

theorem UnitsText.after {us : List StringUnit} {b : WideText} (h : UnitsText us b) (k : ℕ) :
    (Standing.quoted k).after b = .quoted k := by
  induction h with
  | nil => rfl
  | @cons u us t b hu _ ih =>
    have hunit : (Standing.quoted k).after t = .quoted k := by
      cases hu with
      | plain hq hb _ => exact after_quoted hq hb k
      | short _ => rfl
      | numeric hq => exact hq.after k
      | half hq => exact hq.after k
    rw [Standing.after_append, hunit, ih]

theorem balanced_string {x b : WideText} (h : StringForm d x b) :
    Balanced (.char '"' :: (b ++ [.char '"'])) := by
  intro k
  cases h with
  | mk hu _ _ =>
    show (Standing.quoted k).after (b ++ [.char '"']) = _
    rw [Standing.after_append, hu.after]
    rfl

end Strings

section Numbers

theorem numberChar_of_mem {n : NumberText} {x : Text} (h : NumberForm n x) {c : Char} (hc : c ∈ x) :
    NumberChar c := by
  have digits {ds : Text} (hd : Digits ds) (hm : c ∈ ds) : NumberChar c := .inl (hd.2 c hm)
  cases h with
  | @mk negative w f ft et e hw hf he =>
    simp only [List.mem_append] at hc
    rcases hc with hc | hc | hc | hc
    · split at hc
      · rw [List.mem_singleton.mp hc]
        decide
      · cases hc
    · cases hw with
      | zero =>
        rw [List.mem_singleton.mp hc]
        decide
      | natural hd _ => exact digits hd hc
    · cases hf with
      | none => cases hc
      | some hd =>
        rcases List.mem_cons.mp hc with rfl | hc
        · decide
        · exact digits hd hc
    · cases he with
      | none => cases hc
      | @some mark sign ds negative hm hs hd =>
        simp only [List.mem_cons, List.mem_append] at hc
        rcases hc with rfl | hc | hc
        · simp only [List.mem_cons, List.not_mem_nil, or_false] at hm
          rcases hm with rfl | rfl <;> decide
        · simp only [exponentSigns, List.mem_cons, Prod.mk.injEq, List.not_mem_nil,
            or_false] at hs
          rcases hs with ⟨rfl, -⟩ | ⟨rfl, -⟩ | ⟨rfl, -⟩
          · cases hc
          · rw [List.mem_singleton.mp hc]
            decide
          · rw [List.mem_singleton.mp hc]
            decide
        · exact digits hd hc

theorem NumberChar.ne {c e : Char} (h : NumberChar c) (he : ¬ NumberChar e) :
    CodePoint.char c ≠ .char e := fun hc => he (CodePoint.char.inj hc ▸ h)

theorem quiet_number {n : NumberText} {x : Text} (h : NumberForm n x) :
    ∀ c ∈ WideText.ofText x, Balanced.Quiet c := by
  intro c hc
  obtain ⟨e, he, rfl⟩ := List.mem_map.mp hc
  have hn := numberChar_of_mem h he
  refine ⟨hn.ne (by decide), ?_, ?_⟩
  · simp only [openings, WideText.ofText, List.map_cons, List.map_nil, List.mem_cons,
      List.not_mem_nil, or_false, not_or]
    exact ⟨hn.ne (by decide), hn.ne (by decide)⟩
  · simp only [closings, WideText.ofText, List.map_cons, List.map_nil, List.mem_cons,
      List.not_mem_nil, or_false, not_or]
    exact ⟨hn.ne (by decide), hn.ne (by decide)⟩

theorem balanced_number {n : NumberText} {x : Text} (h : NumberForm n x) :
    Balanced (WideText.ofText x) := Balanced.of_quiet (quiet_number h)

theorem foremost_of_delimited {n : NumberText} {x : Text} (h : NumberForm n x) {r : WideText}
    (hr : Delimited r) : Foremost n (WideText.ofText x ++ r) := by
  refine ⟨x, r, h, rfl, fun m u s hm hs => ?_⟩
  cases u with
  | nil => rfl
  | cons c u =>
    obtain ⟨e, he, hce⟩ := hr _ _ hs
    have hn := numberChar_of_mem hm (List.mem_append_right x List.mem_cons_self)
    have hall : (delimiters.all fun e => !decide (NumberChar e)) = true := by decide
    have hnot := List.all_eq_true.mp hall e he
    rw [← CodePoint.char.inj hce] at hnot
    simp [hn] at hnot

end Numbers

section Values

theorem Element.balanced {e : Element} (hs : e.Spaced) (h : Balanced e.text) :
    Balanced e.written :=
  (Balanced.spaces hs.1).append (h.append (Balanced.spaces hs.2))

theorem Member.balanced {m : Member} (hm : m.Keyed d) (h : Balanced m.element.text) :
    Balanced m.written := by
  have hstring := balanced_string hm.body
  have hcolon := Balanced.cons (c := .char ':') (by decide) (m.element.balanced hm.element h)
  have hall := (Balanced.spaces hm.before).append
    (hstring.append ((Balanced.spaces hm.after).append hcolon))
  simpa [Member.written] using hall

theorem Value.balanced {v : Json} (h : Value d k t v) : Balanced t := by
  induction h with
  | named hm =>
    simp only [namedValues, List.mem_cons, Prod.mk.injEq, List.not_mem_nil, or_false] at hm
    rcases hm with ⟨rfl, -⟩ | ⟨rfl, -⟩ | ⟨rfl, -⟩ | ⟨rfl, -⟩ | ⟨rfl, -⟩ | ⟨rfl, -⟩ <;>
      exact Balanced.of_quiet (by decide)
  | number hn _ => exact balanced_number hn
  | string hs => exact balanced_string hs
  | emptyArray _ hw => exact .enclosed (by decide) (by decide) (Balanced.spaces hw)
  | array _ hs _ ih =>
    apply Balanced.enclosed (by decide) (by decide)
    apply Balanced.joined
    exact List.forall_mem_map.mpr fun e he => e.balanced (hs e he) (ih e he)
  | emptyObject _ hw => exact .enclosed (by decide) (by decide) (Balanced.spaces hw)
  | object _ hm _ _ ih =>
    apply Balanced.enclosed (by decide) (by decide)
    apply Balanced.joined
    exact List.forall_mem_map.mpr fun m he => m.balanced (hm m he) (ih m he)

end Values

section Places

theorem Place.pass (h : Place document before (t ++ u) k) (ht : Balanced t) :
    Place document (before ++ t) u k := by
  constructor
  · rw [h.parts, List.append_assoc]
  · rw [Standing.after_append, h.standing, ht]

theorem Place.enter {c : Char} (h : Place document before (.char c :: t) k) (hc : c ∈ openings) :
    Place document (before ++ [.char c]) t (k + 1) := by
  constructor
  · rw [h.parts, List.append_assoc, List.singleton_append]
  · rw [Standing.after_append, h.standing]
    simp only [openings, List.mem_cons, List.not_mem_nil, or_false] at hc
    rcases hc with rfl | rfl <;> rfl

theorem separates_concat (before : WideText) {c : Char} (hc : ¬ NumberChar c) :
    Separates (before ++ [.char c]) := by
  intro e he
  rw [List.getLast?_concat, Option.some.injEq, CodePoint.char.injEq] at he
  rwa [← he]

theorem Separates.spaces (h : Separates before) (hw : Spaces w) : Separates (before ++ w) := by
  rcases List.eq_nil_or_concat' w with rfl | ⟨v, x, rfl⟩
  · rwa [List.append_nil]
  · intro e he
    rw [← List.append_assoc, List.getLast?_concat, Option.some.injEq] at he
    have hs := hw x (by simp)
    rw [he] at hs
    intro hn
    have hspace : isSpace (.char e) = false := by
      simp only [isSpace, Bool.or_eq_false_iff, decide_eq_false_iff_not]
      exact ⟨⟨⟨hn.ne (by decide), hn.ne (by decide)⟩, hn.ne (by decide)⟩, hn.ne (by decide)⟩
    rw [hspace] at hs
    cases hs

/-- A value may begin with the rest of the document, behind so many open brackets. -/
def Awaits (document t : WideText) (k : ℕ) : Prop :=
  ∃ before, Place document before t k ∧ Separates before

namespace Awaits

theorem start (document : WideText) : Awaits document document 0 :=
  ⟨[], ⟨rfl, rfl⟩, fun _ h => by cases h⟩

theorem skip (h : Awaits document t k) : Awaits document (skip t) k := by
  obtain ⟨before, hplace, hsep⟩ := h
  obtain ⟨w, hw, ht⟩ := spaces_skip t
  rw [ht] at hplace
  exact ⟨before ++ w, hplace.pass (.spaces hw), hsep.spaces hw⟩

theorem enter {c : Char} (h : Awaits document (.char c :: t) k) (hc : c ∈ openings) :
    Awaits document t (k + 1) := by
  obtain ⟨before, hplace, -⟩ := h
  have hall : (openings.all fun c => !decide (NumberChar c)) = true := by decide
  exact ⟨_, hplace.enter hc, separates_concat before (by simpa using List.all_eq_true.mp hall c hc)⟩

theorem pass {c : Char} (h : Awaits document (w ++ .char c :: t) k) (hw : Balanced w)
    (hc : c ∈ [',', ':']) : Awaits document t k := by
  obtain ⟨before, hplace, -⟩ := h
  have hquiet : Balanced.Quiet (.char c) ∧ ¬ NumberChar c := by
    simp only [List.mem_cons, List.not_mem_nil, or_false] at hc
    rcases hc with rfl | rfl <;> exact ⟨by decide, by decide⟩
  have hnext : Place document (before ++ w ++ [.char c]) t k :=
    (hplace.pass hw).pass (.of_quiet (List.forall_mem_singleton.mpr hquiet.1))
  exact ⟨_, hnext, separates_concat _ hquiet.2⟩

theorem not_exceeds {n : NumberText} {rule : LengthRule} (h : Awaits document t k)
    (hd : NumbersWithin rule document) (hn : Foremost n t) : n.exceeds rule = false := by
  obtain ⟨before, hplace, hsep⟩ := h
  exact hd before t k n hplace hsep hn

theorem depth_le {limit : ℕ} {c : CodePoint} (h : Awaits document (c :: t) k)
    (hd : NestsWithin limit document) (hs : isSpace c = false) (hc : c ∉ WideText.ofText closings) :
    k ≤ limit := by
  obtain ⟨before, hplace, -⟩ := h
  exact hd before c t k hplace hs hc

end Awaits

def Standing.depth : Standing → ℕ
  | bare depth => depth
  | quoted depth => depth
  | escaped depth => depth

theorem Standing.depth_next (s : Standing) (c : CodePoint) :
    (s.next c).depth ≤ s.depth + if c ∈ WideText.ofText openings then 1 else 0 := by
  cases s with
  | bare k =>
    rw [next]
    by_cases hq : c = .char '"'
    · rw [if_pos hq]
      exact Nat.le_add_right _ _
    · rw [if_neg hq]
      by_cases ho : c ∈ WideText.ofText openings
      · rw [if_pos ho, if_pos ho]
        exact Nat.le_refl _
      · rw [if_neg ho, if_neg ho]
        split
        · exact Nat.sub_le k 1
        · exact Nat.le_refl k
  | quoted k =>
    apply Nat.le_add_right_of_le
    rw [next]
    split_ifs <;> exact Nat.le_refl k
  | escaped k => exact Nat.le_add_right _ _

theorem Standing.depth_after (s : Standing) (t : WideText) :
    (s.after t).depth ≤ s.depth + t.countP (· ∈ WideText.ofText openings) := by
  induction t generalizing s with
  | nil => exact Nat.le_refl _
  | cons c t ih =>
    have hstep := s.depth_next c
    have hrest := ih (s.next c)
    rw [after_cons, List.countP_cons]
    simp only [decide_eq_true_eq]
    omega

theorem nestsWithin_of_countP {limit : ℕ}
    (h : document.countP (· ∈ WideText.ofText openings) ≤ limit) : NestsWithin limit document := by
  intro before c t depth hplace _ _
  have hdepth := (Standing.bare 0).depth_after before
  rw [hplace.standing] at hdepth
  rw [hplace.parts, List.countP_append] at h
  simp only [Standing.depth] at hdepth
  omega

end Places

end ParserRelay.Json
