import ParserRelay.Path
import ParserRelay.Proofs.Text.Join
/-!
# Spellings of paths

A path is read back from its text. Every name in it comes from the text that it was read from, so a
text without white space makes a path without it, and the text of such a path is one word.
-/
namespace ParserRelay

namespace Path

variable {p q : Path} {t : WideText} {c : CodePoint} {n : FileName}

/-- The names of a path that was read from a text: none is left out or cut when its text is read. -/
def Tidy (p : Path) : Prop := ∀ n ∈ p.names, n ≠ [] ∧ n ≠ dot ∧ slash ∉ n

theorem tidy_ofText (t : WideText) : (ofText t).Tidy := by
  intro n hn
  obtain ⟨hp, hk⟩ := List.mem_filter.mp hn
  obtain ⟨hne, hdot⟩ := of_decide_eq_true hk
  exact ⟨hne, hdot, (Text.splitOn_pieces hp).1⟩

theorem Tidy.join (hp : p.Tidy) (hq : q.Tidy) : (p.join q).Tidy := by
  unfold Path.join
  split
  · exact hq
  · intro n hn
    rcases List.mem_append.mp hn with hn | hn
    · exact hp n hn
    · exact hq n hn

theorem head_joinWith {ns : List FileName} (h : ∀ n ∈ ns, n ≠ [] ∧ n ≠ dot ∧ slash ∉ n) :
    (Text.joinWith [slash] ns).takeWhile (· = slash) = [] := by
  cases ns with
  | nil => rfl
  | cons n r =>
    obtain ⟨hne, -, hs⟩ := h n List.mem_cons_self
    obtain ⟨c, n, rfl⟩ := List.exists_cons_of_ne_nil hne
    have hc : c ≠ slash := fun h => hs (h ▸ List.mem_cons_self)
    cases r with
    | nil => simp [Text.joinWith, hc]
    | cons m r => simp [Text.joinWith, hc]

def kept (n : FileName) : Bool := n ≠ [] ∧ n ≠ dot

theorem ofText_eq (t : WideText) :
    ofText t = ⟨anchorOf (t.takeWhile (· = slash)).length, (parts t).filter kept⟩ := rfl

theorem filter_parts_cons_slash (t : WideText) :
    (parts (slash :: t)).filter kept = (parts t).filter kept := by
  have hs : parts (slash :: t) = [] :: parts t := Text.splitOn_append (s := []) List.not_mem_nil t
  rw [hs]
  exact List.filter_cons_of_neg (by simp [kept])

theorem ofText_text (h : p.Tidy) : ofText p.text = p := by
  obtain ⟨a, ns⟩ := p
  have hparts : (parts (Text.joinWith [slash] ns)).filter kept = ns := by
    cases ns with
    | nil => decide
    | cons n r =>
      rw [parts, Text.splitOn_joinWith (by simp) (fun m hm => (h m hm).2.2), List.filter_eq_self]
      intro m hm
      exact decide_eq_true ⟨(h m hm).1, (h m hm).2.1⟩
  have hhead := head_joinWith h
  cases a with
  | current =>
    by_cases he : Text.joinWith [slash] ns = []
    · have hns : ns = [] := by
        rw [he] at hparts
        rw [← hparts]
        decide
      rw [hns]
      decide
    · have ht : text ⟨.current, ns⟩ = Text.joinWith [slash] ns := by simp [text, anchorText, he]
      rw [ht, ofText_eq, hparts, hhead]
      rfl
  | root =>
    have ht : text ⟨.root, ns⟩ = slash :: Text.joinWith [slash] ns := rfl
    rw [ht, ofText_eq, filter_parts_cons_slash, hparts, List.takeWhile_cons_of_pos (by simp), hhead]
    rfl
  | doubleRoot =>
    have ht : text ⟨.doubleRoot, ns⟩ = slash :: slash :: Text.joinWith [slash] ns := rfl
    rw [ht, ofText_eq, filter_parts_cons_slash, filter_parts_cons_slash, hparts,
      List.takeWhile_cons_of_pos (by simp), List.takeWhile_cons_of_pos (by simp), hhead]
    rfl

theorem mem_text (h : c ∈ p.text) : c = slash ∨ c = .char '.' ∨ ∃ n ∈ p.names, c ∈ n := by
  have hanchor : ∀ a, c ∈ anchorText a → c = slash := by
    intro a
    cases a <;> simp [anchorText]
  unfold text at h
  simp only at h
  split at h
  · exact .inr (.inl (List.mem_singleton.mp h))
  · rcases List.mem_append.mp h with h | h
    · exact .inl (hanchor _ h)
    · rcases Text.mem_joinWith h with h | h
      · exact .inl (List.mem_singleton.mp h)
      · exact .inr (.inr h)

theorem mem_text_of_mem (hn : n ∈ p.names) (hc : c ∈ n) : c ∈ p.text := by
  have hj := Text.mem_joinWith_of_mem [slash] hn hc
  unfold text
  simp only
  split
  · rename_i he
    rw [List.isEmpty_iff, List.append_eq_nil_iff] at he
    rw [he.2] at hj
    cases hj
  · exact List.mem_append_right _ hj

theorem mem_of_mem_ofText (hn : n ∈ (ofText t).names) (hc : c ∈ n) : c ∈ t :=
  (Text.splitOn_pieces (List.mem_filter.mp hn).1).2 c hc

theorem names_ofText_append {t : WideText} (hn : n ≠ [] ∧ n ≠ dot ∧ slash ∉ n) :
    (ofText (t ++ slash :: n)).names = (ofText t).names ++ [n] := by
  have hlast : (parts n).filter kept = [n] := by
    rw [parts, Text.splitOn_of_not_mem hn.2.2]
    exact List.filter_eq_self.mpr (by simp [kept, hn.1, hn.2.1])
  rw [ofText_eq, ofText_eq, parts, Text.splitOn_append_cons, List.filter_append]
  exact congrArg (_ ++ ·) hlast

theorem isAbsolute_ofText_iff : (ofText t).isAbsolute = true ↔ t.head? = some slash := by
  have hanchor (k : Nat) : anchorOf (k + 1) ≠ .current := by
    unfold anchorOf
    split <;> simp_all
  cases t with
  | nil => simp [isAbsolute, ofText, anchorOf]
  | cons c t =>
    by_cases hc : c = slash
    · simp [isAbsolute, ofText, hc, hanchor]
    · simp [isAbsolute, ofText, hc, anchorOf]

structure Proper (n : FileName) : Prop where
  ne_nil : n ≠ []
  ne_dot : n ≠ dot
  ne_dotDot : n ≠ dotDot
  no_slash : slash ∉ n

theorem PlainName.proper (h : PlainName n) : Proper n := ⟨h.1, h.2.1, h.2.2.1, h.2.2.2.1⟩

theorem tidy_of_proper (h : ∀ n ∈ p.names, Proper n) : p.Tidy :=
  fun n hn => ⟨(h n hn).ne_nil, (h n hn).ne_dot, (h n hn).no_slash⟩

theorem Tidy.child (hp : p.Tidy) (hn : n ≠ [] ∧ n ≠ dot ∧ slash ∉ n) : (p.child n).Tidy := by
  intro m hm
  rcases List.mem_append.mp hm with hm | hm
  · exact hp m hm
  · rwa [List.mem_singleton.mp hm]

theorem Tidy.parent (hp : p.Tidy) : p.parent.Tidy :=
  fun n hn => hp n (p.names.dropLast_subset hn)

theorem mem_foldl_climb {ns r : List FileName} (h : n ∈ ns.foldl climb r) : n ∈ ns ∨ n ∈ r := by
  induction ns generalizing r with
  | nil => exact .inr h
  | cons m ns ih =>
    rcases ih h with h | h
    · exact .inl (List.mem_cons_of_mem m h)
    · unfold climb at h
      split at h
      · exact .inr (List.mem_of_mem_tail h)
      · rcases List.mem_cons.mp h with rfl | h
        · exact .inl List.mem_cons_self
        · exact .inr h

theorem Tidy.collapsed (hp : p.Tidy) : p.collapsed.Tidy := by
  intro n hn
  rcases mem_foldl_climb (List.mem_reverse.mp hn) with hn | hn
  · exact hp n hn
  · cases hn

theorem foldl_climb {ns : List FileName} (h : ∀ n ∈ ns, Proper n) (r : List FileName) :
    ns.foldl climb r = ns.reverse ++ r := by
  induction ns generalizing r with
  | nil => rfl
  | cons n ns ih =>
    have hn : climb r n = n :: r := if_neg (h n List.mem_cons_self).ne_dotDot
    rw [List.foldl_cons, hn, ih (fun m hm => h m (List.mem_cons_of_mem n hm))]
    simp

theorem collapsed_of_proper (h : ∀ n ∈ p.names, Proper n) : p.collapsed = p := by
  simp [collapsed, foldl_climb h]

theorem collapsed_child (hn : Proper n) (p : Path) : (p.child n).collapsed = p.collapsed.child n := by
  simp [collapsed, child, climb, hn.ne_dotDot]

theorem names_join_append (base : Path) (ht : t ≠ []) (hn : n ≠ [] ∧ n ≠ dot ∧ slash ∉ n) :
    (base.join (ofText (t ++ slash :: n))).names = (base.join (ofText t)).names ++ [n] := by
  have hsame : (ofText (t ++ slash :: n)).isAbsolute = (ofText t).isAbsolute := by
    obtain ⟨c, t, rfl⟩ := List.exists_cons_of_ne_nil ht
    rw [Bool.eq_iff_iff, isAbsolute_ofText_iff, isAbsolute_ofText_iff]
    rfl
  unfold join
  rw [hsame]
  split
  · exact names_ofText_append hn
  · simp [names_ofText_append hn]

def Unbroken (p : Path) : Prop := ∀ n ∈ p.names, ∀ c ∈ n, ¬ Text.isBlank c

theorem unbroken_iff : p.Unbroken ↔ ∀ c ∈ p.text, ¬ Text.isBlank c := by
  constructor
  · intro h c hc
    rcases mem_text hc with rfl | rfl | ⟨n, hn, hc⟩
    · decide
    · decide
    · exact h n hn c hc
  · exact fun h n hn c hc => h c (mem_text_of_mem hn hc)

theorem unbroken_ofText (h : ∀ c ∈ t, ¬ Text.isBlank c) : (ofText t).Unbroken :=
  fun _ hn c hc => h c (mem_of_mem_ofText hn hc)

theorem Unbroken.join (hp : p.Unbroken) (hq : q.Unbroken) : (p.join q).Unbroken := by
  unfold Path.join
  split
  · exact hq
  · intro n hn
    rcases List.mem_append.mp hn with hn | hn
    · exact hp n hn
    · exact hq n hn

theorem Unbroken.child (hp : p.Unbroken) (hn : ∀ c ∈ n, ¬ Text.isBlank c) :
    (p.child n).Unbroken := by
  intro m hm
  rcases List.mem_append.mp hm with hm | hm
  · exact hp m hm
  · rw [List.mem_singleton.mp hm]
    exact hn

theorem text_ne_nil (p : Path) : p.text ≠ [] := by
  unfold text
  simp only
  split
  · decide
  · rename_i h
    simpa using h

end Path
end ParserRelay
