import Mathlib.Data.List.Basic
import ParserRelay.Proofs.Json.Grammar
import ParserRelay.Proofs.Text.Join
/-!
# What the printer writes is in the grammar

Values without floating-point numbers and without halves of surrogate pairs are printed as texts
that the grammar derives for them, without a control character and so on one line. An object is
found again with its members in order, since its keys are distinct.
-/
namespace ParserRelay

namespace Text

theorem decimalValue_ofNat (n : ℕ) : decimalValue (ofNat n) = n := by
  have h := Nat.ofDigitChars_ten_toDigits (n := n)
  rwa [Nat.ofDigitChars_eq_foldl] at h

theorem isDigit_of_mem_ofNat {n : ℕ} {c : Char} (h : c ∈ ofNat n) : c.isDigit :=
  Nat.isDigit_of_mem_toDigits (by decide) (by decide) h

theorem head?_ofNat {n : ℕ} (h : n ≠ 0) : (ofNat n).head? ≠ some '0' := by
  induction n using Nat.strongRecOn with
  | ind n ih =>
    rw [ofNat, Nat.toDigits_eq_if (by decide)]
    split
    · simpa using mt Nat.digitChar_eq_zero.1 h
    · have hq := ih (n / 10) (by omega) (by omega)
      rw [ofNat] at hq
      rwa [List.head?_append_of_ne_nil _ Nat.toDigits_ne_nil]

end Text

namespace Json

namespace Members

theorem put_of_not_mem {key : WideText} {m : Members} (h : key ∉ m.keys) (value : Json) :
    put key value m = m ++ [(key, value)] := by
  induction m with
  | nil => rfl
  | cons e r ih =>
    obtain ⟨k, v⟩ := e
    rw [keys, List.map_cons, List.mem_cons, not_or] at h
    rw [put, if_neg (Ne.symm h.1), ih h.2, List.cons_append]

theorem foldl_put {m r : Members} (h : (keys (m ++ r)).Nodup) :
    r.foldl (fun m (k, v) => put k v m) m = m ++ r := by
  induction r generalizing m with
  | nil => simp
  | cons e r ih =>
    obtain ⟨k, v⟩ := e
    have hk : k ∉ m.keys := by
      rw [keys, List.map_append, List.nodup_append] at h
      exact fun hk => h.2.2 k hk k (List.mem_cons_self ..) rfl
    simp only [List.foldl_cons, put_of_not_mem hk]
    rw [ih (by rwa [List.append_assoc]), List.append_assoc]
    rfl

theorem ofWritten_of_nodup {m : Members} (h : m.keys.Nodup) : ofWritten m = m :=
  foldl_put h

end Members

section Integers

def integerText (n : Int) : NumberText := ⟨decide (n < 0), Text.ofNat n.natAbs, [], none⟩

theorem wholePart_ofNat (n : ℕ) : WholePart (Text.ofNat n) := by
  by_cases h : n = 0
  · subst h
    exact .zero
  · exact .natural ⟨Nat.toDigits_ne_nil, fun c hc => Text.isDigit_of_mem_ofNat hc⟩
      (Text.head?_ofNat h)

theorem numberForm_ofInt (n : Int) : NumberForm (integerText n) (Text.ofInt n) := by
  have h := @NumberForm.mk (decide (n < 0)) _ _ _ _ _ (wholePart_ofNat n.natAbs) .none .none
  cases n with
  | ofNat n =>
    have hn : ¬ (n : Int) < 0 := by omega
    simpa [integerText, Text.ofInt, hn] using h
  | negSucc n => simpa [integerText, Text.ofInt] using h

theorem toJson_integerText (n : Int) : (integerText n).toJson = .int n := by
  have h : (integerText n).toInt = n := by
    simp only [NumberText.toInt, integerText, Text.decimalValue_ofNat, decide_eq_true_eq]
    split <;> omega
  have hi : (integerText n).isInteger := rfl
  rw [NumberText.toJson, if_pos hi, h]

end Integers

/-- Values that an exchange keeps, nested at most so many levels deep: no floating-point numbers, no
halves of surrogate pairs, and integers of at most 4300 digits. -/
inductive Exchangeable : ℕ → Json → Prop
  | null {k : ℕ} : Exchangeable k .null
  | bool {k : ℕ} (b : Bool) : Exchangeable k (.bool b)
  | int {k : ℕ} {n : Int} : (Text.ofNat n.natAbs).length ≤ 4300 → Exchangeable k (.int n)
  | str {k : ℕ} {s : WideText} : (WideText.toText? s).isSome → Exchangeable k (.str s)
  | arr {k : ℕ} {items : List Json} :
      (∀ v ∈ items, Exchangeable k v) → Exchangeable (k + 1) (.arr items)
  | obj {k : ℕ} {members : Members} : (Members.keys members).Nodup →
      (∀ m ∈ members, (WideText.toText? m.1).isSome) → (∀ m ∈ members, Exchangeable k m.2) →
      Exchangeable (k + 1) (.obj members)

/-- A text printed for a value: it stands for the value, and it stays on its line. -/
structure Printed (k : ℕ) (v : Json) (t : Text) : Prop where
  form : ∀ room, Value (documents room) k (WideText.ofText t) v
  visible : Visible t

theorem printed_string {w : WideText} (h : (WideText.toText? w).isSome) : ∃ t,
    writeString w = .ok (stringText t) ∧ w = WideText.ofText t := by
  obtain ⟨t, ht⟩ := Option.isSome_iff_exists.1 h
  obtain rfl := WideText.eq_ofText_of_toText? ht
  exact ⟨t, by rw [writeString, WideText.plain_ofText], rfl⟩

theorem visible_ofInt (n : Int) : Visible (Text.ofInt n) := by
  have hdigits : ∀ m : ℕ, Visible (Text.ofNat m) := fun _ _ hc =>
    Nat.le_trans (by decide) (Text.range_of_isDigit (Text.isDigit_of_mem_ofNat hc)).1
  cases n with
  | ofNat n => exact hdigits n
  | negSucc n => exact List.forall_mem_cons.2 ⟨by decide, hdigits (n + 1)⟩

theorem visible_joinWith {ts : List Text} (h : ∀ t ∈ ts, Visible t) :
    Visible (Text.joinWith [','] ts) := by
  intro c hc
  rcases Text.mem_joinWith hc with hs | ⟨t, ht, hc⟩
  · obtain rfl := List.mem_singleton.mp hs
    decide
  · exact h t ht c hc

section Containers

variable {levels k : ℕ}

theorem writeItems_of_printed {items : List Json}
    (h : ∀ v ∈ items, ∃ t, write levels v = .ok t ∧ Printed k v t) :
    ∃ ps : List (Text × Json), writeItems levels items = .ok (ps.map (·.1)) ∧
      ps.map (·.2) = items ∧ ∀ p ∈ ps, Printed k p.2 p.1 := by
  induction items with
  | nil => exact ⟨[], rfl, rfl, by simp⟩
  | cons v r ih =>
    obtain ⟨t, hw, ht⟩ := h v (List.mem_cons_self ..)
    obtain ⟨ps, hps, hv, hp⟩ := ih fun u hu => h u (List.mem_cons_of_mem _ hu)
    refine ⟨(t, v) :: ps, ?_, by simp [hv], List.forall_mem_cons.2 ⟨ht, hp⟩⟩
    rw [writeItems, hw]
    simp only [hps]
    rfl

abbrev PrintedMember := Text × Text × Json

def PrintedMember.text (p : PrintedMember) : Text := stringText p.1 ++ ':' :: p.2.1

theorem writeMembers_of_printed {members : Members}
    (hk : ∀ m ∈ members, (WideText.toText? m.1).isSome)
    (h : ∀ m ∈ members, ∃ t, write levels m.2 = .ok t ∧ Printed k m.2 t) :
    ∃ ps : List PrintedMember, writeMembers levels members = .ok (ps.map PrintedMember.text) ∧
      ps.map (fun p => (WideText.ofText p.1, p.2.2)) = members ∧
      ∀ p ∈ ps, Printed k p.2.2 p.2.1 := by
  induction members with
  | nil => exact ⟨[], rfl, rfl, by simp⟩
  | cons m r ih =>
    obtain ⟨key, v⟩ := m
    obtain ⟨t, hw, ht⟩ := h _ (List.mem_cons_self ..)
    obtain ⟨u, hu, hkey⟩ := printed_string (hk _ (List.mem_cons_self ..))
    obtain ⟨ps, hps, hv, hp⟩ := ih (fun m hm => hk m (List.mem_cons_of_mem _ hm))
      fun m hm => h m (List.mem_cons_of_mem _ hm)
    refine ⟨(u, t, v) :: ps, ?_, ?_, List.forall_mem_cons.2 ⟨ht, hp⟩⟩
    · rw [writeMembers, hu]
      simp only [hw, hps]
      rfl
    · simp only at hkey
      simp [hv, hkey]

def bare (p : Text × Json) : Element := ⟨[], WideText.ofText p.1, [], p.2⟩

theorem spaced_bare (p : Text × Json) : (bare p).Spaced :=
  ⟨List.forall_mem_nil _, List.forall_mem_nil _⟩

@[simp] theorem written_bare (p : Text × Json) : (bare p).written = WideText.ofText p.1 := by
  simp [bare, Element.written]

namespace PrintedMember

def member (p : PrintedMember) : Member :=
  ⟨[], WideText.ofText p.1, WideText.ofText (p.1.flatMap stringChar), [], bare p.2⟩

theorem keyed_member (d : Dialect) (p : PrintedMember) : p.member.Keyed d where
  before := List.forall_mem_nil _
  body := stringForm_of_body d (stringBody_flatMap p.1)
  after := List.forall_mem_nil _
  element := spaced_bare p.2

@[simp] theorem written_member (p : PrintedMember) : p.member.written = WideText.ofText p.text := by
  simp [member, Member.written, text, stringText]

end PrintedMember

theorem visible_enclosed {o c : Char} (ho : 0x20 ≤ o.toNat) (hc : 0x20 ≤ c.toNat)
    {ts : List Text} (h : ∀ t ∈ ts, Visible t) :
    Visible (o :: (Text.joinWith [','] ts ++ [c])) := by
  refine List.forall_mem_cons.2 ⟨ho, fun e he => ?_⟩
  rcases List.mem_append.mp he with he | he
  · exact visible_joinWith h e he
  · rwa [List.mem_singleton.mp he]

theorem ofText_enclosed (o c : Char) (ts : List Text) :
    WideText.ofText (o :: (Text.joinWith [','] ts ++ [c])) =
      enclosed o c (ts.map WideText.ofText) := by
  simp [enclosed, WideText.ofText, Text.joinWith_map]
  rfl

theorem printed_array {ps : List (Text × Json)} (h : ∀ p ∈ ps, Printed k p.2 p.1) :
    Printed (k + 1) (.arr (ps.map (·.2)))
      ('[' :: (Text.joinWith [','] (ps.map (·.1)) ++ [']'])) := by
  constructor
  · intro room
    rw [ofText_enclosed]
    cases ps with
    | nil => exact .emptyArray (NestingRule.admitsEmpty_of_lt k.lt_succ_self) (List.forall_mem_nil _)
    | cons p ps =>
      have ha := @Value.array (documents room) k ((p :: ps).map bare) (by simp)
        (List.forall_mem_map.2 fun p _ => spaced_bare p)
        (List.forall_mem_map.2 fun p hp => (h p hp).form room)
      have hvalues : Element.value ∘ bare = Prod.snd := rfl
      rw [List.map_map, List.map_map, hvalues] at ha
      simpa [Function.comp_def] using ha
  · refine visible_enclosed (by decide) (by decide) fun t ht => ?_
    obtain ⟨p, hp, rfl⟩ := List.mem_map.mp ht
    exact (h p hp).visible

theorem value_stringText (d : Dialect) (k : ℕ) (t : Text) :
    Value d k (WideText.ofText (stringText t)) (.str (WideText.ofText t)) := by
  have hv := @Value.string d k _ _ (stringForm_of_body d (stringBody_flatMap t))
  simpa [stringText] using hv

theorem value_of_members {d : Dialect} {ps : List PrintedMember}
    (h : ∀ p ∈ ps, Value d k (WideText.ofText p.2.1) p.2.2) : Value d (k + 1)
      (WideText.ofText ('{' :: (Text.joinWith [','] (ps.map PrintedMember.text) ++ ['}'])))
      (.obj (Members.ofWritten (ps.map fun p => (WideText.ofText p.1, p.2.2)))) := by
  rw [ofText_enclosed]
  cases ps with
  | nil => exact .emptyObject (NestingRule.admitsEmpty_of_lt k.lt_succ_self) (List.forall_mem_nil _)
  | cons p ps =>
    have ho := @Value.object d k ((p :: ps).map PrintedMember.member) _ (by simp)
      (List.forall_mem_map.2 fun p _ => p.keyed_member d)
      (List.forall_mem_map.2 fun p hp => h p hp) (Members.kept_ofWritten _)
    have hentries : ((p :: ps).map PrintedMember.member).map Member.entry =
        (p :: ps).map fun p => (WideText.ofText p.1, p.2.2) := List.map_map
    rw [hentries, List.map_map] at ho
    simpa [Function.comp_def] using ho

theorem printed_object {ps : List PrintedMember} (h : ∀ p ∈ ps, Printed k p.2.2 p.2.1)
    (hn : (Members.keys (ps.map fun p => (WideText.ofText p.1, p.2.2))).Nodup) :
    Printed (k + 1) (.obj (ps.map fun p => (WideText.ofText p.1, p.2.2)))
      ('{' :: (Text.joinWith [','] (ps.map PrintedMember.text) ++ ['}'])) := by
  constructor
  · intro room
    have hv := value_of_members fun p hp => (h p hp).form room
    rwa [Members.ofWritten_of_nodup hn] at hv
  · refine visible_enclosed (by decide) (by decide) fun t ht => ?_
    obtain ⟨p, hp, rfl⟩ := List.mem_map.mp ht
    rw [PrintedMember.text]
    intro c hc
    rcases List.mem_append.mp hc with hc | hc
    · exact visible_stringText p.1 c hc
    · exact List.forall_mem_cons.2 ⟨by decide, (h p hp).visible⟩ c hc

end Containers

/-- What can be exchanged is printed where the printer has a level to spare. -/
theorem printed_of_exchangeable {k : ℕ} {v : Json} (h : Exchangeable k v) {levels : ℕ}
    (hl : k ≤ levels) : ∃ t, write (levels + 1) v = .ok t ∧ Printed k v t := by
  induction h generalizing levels with
  | null => exact ⟨_, rfl, fun _ => .named (by simp [namedValues]), visible_of_all (by decide)⟩
  | bool b =>
    cases b with
    | true => exact ⟨_, rfl, fun _ => .named (by simp [namedValues]), visible_of_all (by decide)⟩
    | false => exact ⟨_, rfl, fun _ => .named (by simp [namedValues]), visible_of_all (by decide)⟩
  | @int k n hn =>
    have hshort : (integerText n).exceeds (.integers 4300) = false :=
      decide_eq_false (Nat.not_lt.2 hn)
    refine ⟨_, rfl, fun _ => ?_, visible_ofInt n⟩
    exact toJson_integerText n ▸ .number (numberForm_ofInt n) hshort
  | @str k s hs =>
    obtain ⟨t, hw, rfl⟩ := printed_string hs
    exact ⟨_, hw, fun room => value_stringText (documents room) k t, visible_stringText t⟩
  | @arr k items _ ih =>
    obtain ⟨levels, rfl⟩ : ∃ n, levels = n + 1 := ⟨levels - 1, by omega⟩
    obtain ⟨ps, hw, rfl, hp⟩ := writeItems_of_printed fun v hv =>
      ih v hv (Nat.le_of_succ_le_succ hl)
    exact ⟨_, by rw [write, hw]; rfl, printed_array hp⟩
  | @obj k members hn hk _ ih =>
    obtain ⟨levels, rfl⟩ : ∃ n, levels = n + 1 := ⟨levels - 1, by omega⟩
    obtain ⟨ps, hw, rfl, hp⟩ := writeMembers_of_printed hk fun m hm =>
      ih m hm (Nat.le_of_succ_le_succ hl)
    exact ⟨_, by rw [write, hw]; rfl, printed_object hp hn⟩

end Json
end ParserRelay
