import ParserRelay.Proofs.Json.Grammar
/-!
# Dialects that admit more

A dialect that admits the strings, the numbers and the nesting of another one has all of its
documents, and each stands for the same value in both.
-/
namespace ParserRelay.Json

/-- What the first dialect admits in a document, the second admits as well. -/
structure Dialect.Stricter (d e : Dialect) : Prop where
  loneHalves : d.loneHalves → e.loneHalves
  nesting : d.nesting.limit < e.nesting.limit
  numbers : ∀ n : NumberText, n.exceeds d.length = false → n.exceeds e.length = false

variable {d e : Dialect} {k : ℕ} {t : WideText} {v : Json}

theorem StringForm.widen (hd : d.Stricter e) {s b : WideText} (h : StringForm d s b) :
    StringForm e s b := by
  cases h with
  | mk hu hj hw =>
    apply StringForm.mk hu hj
    rcases hw with hhalves | hplain
    · exact .inl (hd.loneHalves hhalves)
    · exact .inr hplain

theorem Member.Keyed.widen (hd : d.Stricter e) {m : Member} (h : m.Keyed d) : m.Keyed e :=
  ⟨h.before, h.body.widen hd, h.after, h.element⟩

/-- One level more makes room for empty containers, which the stricter dialect need not count. -/
theorem Value.widen (hd : d.Stricter e) (h : Value d k t v) : Value e (k + 1) t v := by
  induction h with
  | named hm => exact .named hm
  | number hn hfit => exact .number hn (hd.numbers _ hfit)
  | string hs => exact .string (hs.widen hd)
  | emptyArray _ hw => exact .emptyArray (NestingRule.admitsEmpty_of_lt (Nat.lt_succ_self _)) hw
  | array hne hs _ ih => exact .array hne hs ih
  | emptyObject _ hw => exact .emptyObject (NestingRule.admitsEmpty_of_lt (Nat.lt_succ_self _)) hw
  | object hne hm _ hkept ih => exact .object hne (fun m hin => (hm m hin).widen hd) ih hkept

theorem Document.widen (hd : d.Stricter e) (h : Document d t v) : Document e t v := by
  cases h with
  | mk hs hv => exact .mk hs ((hv.widen hd).mono hd.nesting)

theorem exceeds_integers_of_wholeParts {limit : ℕ} (n : NumberText)
    (h : n.exceeds (.wholeParts limit) = false) : n.exceeds (.integers limit) = false := by
  have hle : n.whole.length + n.negative.toNat ≤ limit := by
    simpa [NumberText.exceeds] using h
  have hfit : ¬ limit < n.whole.length := by omega
  simp [NumberText.exceeds, hfit]

theorem records_stricter_documents {room : ℕ} (h : 200 < room) :
    records.Stricter (documents room) := by
  apply Dialect.Stricter.mk
  · exact fun _ => rfl
  · exact h
  · exact exceeds_integers_of_wholeParts

end ParserRelay.Json
