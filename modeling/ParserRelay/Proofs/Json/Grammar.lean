import ParserRelay.Proofs.Json.Members
import ParserRelay.Proofs.Json.StringForm
/-!
# The grammar of documents

Which text stands for which value, apart from any reader. The white space before and after the parts
of a container belongs to the container. A dialect says which strings and numbers it admits; the
depth of a derivation bounds the nesting of its containers.
-/
namespace ParserRelay.Json

section Numbers

def Digits (ds : Text) : Prop := ds ≠ [] ∧ ∀ c ∈ ds, c.isDigit

inductive WholePart : Text → Prop
  | zero : WholePart ['0']
  | natural {ds : Text} : Digits ds → ds.head? ≠ some '0' → WholePart ds

inductive FractionPart : Text → Text → Prop
  | none : FractionPart [] []
  | some {ds : Text} : Digits ds → FractionPart ds ('.' :: ds)

def exponentSigns : List (Text × Bool) := [([], false), (['+'], false), (['-'], true)]

inductive ExponentPart : Option (Bool × Text) → Text → Prop
  | none : ExponentPart none []
  | some {mark : Char} {sign ds : Text} {negative : Bool} :
      mark ∈ ['e', 'E'] → (sign, negative) ∈ exponentSigns → Digits ds →
      ExponentPart (some (negative, ds)) (mark :: (sign ++ ds))

inductive NumberForm : NumberText → Text → Prop
  | mk {negative : Bool} {w f ft et : Text} {e : Option (Bool × Text)} :
      WholePart w → FractionPart f ft → ExponentPart e et →
      NumberForm ⟨negative, w, f, e⟩ ((if negative then ['-'] else []) ++ (w ++ (ft ++ et)))

end Numbers

/-- A value in a container: its text with the white space around it. -/
structure Element where
  before : WideText
  text : WideText
  after : WideText
  value : Json

namespace Element

def written (e : Element) : WideText := e.before ++ (e.text ++ e.after)

def Spaced (e : Element) : Prop := Spaces e.before ∧ Spaces e.after

end Element

/-- A member of an object: its key, what stands for it between the marks, and its element. -/
structure Member where
  before : WideText
  key : WideText
  body : WideText
  after : WideText
  element : Element

namespace Member

def written (m : Member) : WideText :=
  m.before ++ .char '"' :: (m.body ++ .char '"' :: (m.after ++ .char ':' :: m.element.written))

structure Keyed (d : Dialect) (m : Member) : Prop where
  before : Spaces m.before
  body : StringForm d m.key m.body
  after : Spaces m.after
  element : m.element.Spaced

def entry (m : Member) : WideText × Json := (m.key, m.element.value)

end Member

def enclosed (opening closing : Char) (parts : List WideText) : WideText :=
  .char opening :: (Text.joinWith [.char ','] parts ++ [.char closing])

theorem NestingRule.admitsEmpty_of_lt {rule : NestingRule} {k n : ℕ} (h : k < n) :
    rule.admitsEmpty n := by
  simp [admitsEmpty, Nat.zero_lt_of_lt h]

theorem NestingRule.admitsEmpty_mono {rule : NestingRule} {k n : ℕ} (h : rule.admitsEmpty k)
    (hn : k ≤ n) : rule.admitsEmpty n := by
  rcases Nat.eq_or_lt_of_le hn with rfl | hlt
  · exact h
  · exact admitsEmpty_of_lt hlt

inductive Value (d : Dialect) : ℕ → WideText → Json → Prop
  | named {k : ℕ} {name : Text} {v : Json} : (name, v) ∈ namedValues → Value d k (WideText.ofText name) v
  | number {k : ℕ} {n : NumberText} {t : Text} :
      NumberForm n t → n.exceeds d.length = false → Value d k (WideText.ofText t) n.toJson
  | string {k : ℕ} {s b : WideText} :
      StringForm d s b → Value d k (.char '"' :: (b ++ [.char '"'])) (.str s)
  | emptyArray {k : ℕ} {w : WideText} : d.nesting.admitsEmpty k → Spaces w →
      Value d k (enclosed '[' ']' [w]) (.arr [])
  | array {k : ℕ} {es : List Element} : es ≠ [] → (∀ e ∈ es, e.Spaced) →
      (∀ e ∈ es, Value d k e.text e.value) →
      Value d (k + 1) (enclosed '[' ']' (es.map Element.written)) (.arr (es.map Element.value))
  | emptyObject {k : ℕ} {w : WideText} : d.nesting.admitsEmpty k → Spaces w →
      Value d k (enclosed '{' '}' [w]) (.obj [])
  | object {k : ℕ} {ms : List Member} {members : Members} : ms ≠ [] → (∀ m ∈ ms, m.Keyed d) →
      (∀ m ∈ ms, Value d k m.element.text m.element.value) →
      Members.Kept (ms.map Member.entry) members →
      Value d (k + 1) (enclosed '{' '}' (ms.map Member.written)) (.obj members)

theorem Value.mono {d : Dialect} {k n : ℕ} {t : WideText} {v : Json} (h : Value d k t v)
    (hn : k ≤ n) : Value d n t v := by
  induction h generalizing n with
  | named hm => exact .named hm
  | number hf hl => exact .number hf hl
  | string hs => exact .string hs
  | emptyArray hk hw => exact .emptyArray (NestingRule.admitsEmpty_mono hk hn) hw
  | array hne hs _ ih =>
    obtain ⟨n, rfl⟩ : ∃ i, n = i + 1 := ⟨n - 1, by omega⟩
    exact .array hne hs fun e he => ih e he (Nat.le_of_succ_le_succ hn)
  | emptyObject hk hw => exact .emptyObject (NestingRule.admitsEmpty_mono hk hn) hw
  | object hne hm _ hkept ih =>
    obtain ⟨n, rfl⟩ : ∃ i, n = i + 1 := ⟨n - 1, by omega⟩
    exact .object hne hm (fun m hm => ih m hm (Nat.le_of_succ_le_succ hn)) hkept

inductive Document (d : Dialect) : WideText → Json → Prop
  | mk {e : Element} : e.Spaced → Value d d.nesting.limit e.text e.value → Document d e.written e.value

theorem document_of_value {d : Dialect} {t : WideText} {v : Json} (h : Value d d.nesting.limit t v) :
    Document d t v := by
  have hs : Element.Spaced ⟨[], t, [], v⟩ := ⟨List.forall_mem_nil _, List.forall_mem_nil _⟩
  have hd := Document.mk hs h
  rwa [Element.written, List.nil_append, List.append_nil] at hd

end ParserRelay.Json
