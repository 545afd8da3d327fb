import ParserRelay.Message.Basic
import ParserRelay.Proofs.Json.Acceptance
/-!
# Written forms of messages

A message is written as one object with its two members in either order, with white space between
the tokens and with any written form of the strings. Each such text is a document of the grammar and
so is read as the message.
-/
namespace ParserRelay.Message
open WideText (ofText)
open Json (Dialect Element Member Padding StringBody Value isSpace)

inductive MemberForm (key value : Text) : Text → Prop
  | mk {k v p q : Text} : StringBody key k → StringBody value v → Padding p → Padding q →
      MemberForm key value ('"' :: (k ++ '"' :: (p ++ ':' :: (q ++ '"' :: (v ++ ['"'])))))

inductive ObjectForm (a b : Text) : Text → Prop
  | mk {p q r s : Text} : Padding p → Padding q → Padding r → Padding s →
      ObjectForm a b ('{' :: (p ++ (a ++ (q ++ ',' :: (r ++ (b ++ (s ++ ['}'])))))))

inductive RecordForm (l : Level) (t : Text) : Text → Prop
  | levelFirst {a b w : Text} :
      MemberForm levelKey l.name a → MemberForm textKey t b → ObjectForm a b w → RecordForm l t w
  | textFirst {a b w : Text} :
      MemberForm levelKey l.name a → MemberForm textKey t b → ObjectForm b a w → RecordForm l t w

theorem member_of_form {key value w p q : Text} (h : MemberForm key value w) (hp : Padding p)
    (hq : Padding q) (d : Dialect) (k : ℕ) : ∃ m : Member, m.Keyed d ∧
      Value d k m.element.text m.element.value ∧ m.written = ofText (p ++ (w ++ q)) ∧
      m.entry = (ofText key, .str (ofText value)) := by
  cases h with
  | @mk b v r s hb hv hr hs =>
    refine ⟨⟨ofText p, ofText key, ofText b, ofText r,
      ⟨ofText s, .char '"' :: (ofText v ++ [.char '"']), ofText q, .str (ofText value)⟩⟩,
      ⟨hp.spaces, Json.stringForm_of_body d hb, hr.spaces, hs.spaces, hq.spaces⟩,
      .string (Json.stringForm_of_body d hv), ?_, rfl⟩
    simp [Member.written, Element.written]

theorem value_of_form {j k v u a b w : Text} (ha : MemberForm j v a) (hb : MemberForm k u b)
    (h : ObjectForm a b w) (d : Dialect) (n : ℕ) :
    Value d (n + 1) (ofText w) (.obj (Json.Members.ofWritten
      [(ofText j, .str (ofText v)), (ofText k, .str (ofText u))])) := by
  cases h with
  | @mk p q r s hp hq hr hs =>
    obtain ⟨m, hm, hmv, hmw, hme⟩ := member_of_form ha hp hq d n
    obtain ⟨o, ho, hov, how, hoe⟩ := member_of_form hb hr hs d n
    have hv := @Value.object d n [m, o] _ (by simp) (by simp [hm, ho])
      (by simp [hmv, hov]) (Json.Members.kept_ofWritten _)
    simpa [Json.enclosed, Text.joinWith, hmw, how, hme, hoe] using hv

theorem checkLevel_name (l : Level) : checkLevel (.str (ofText l.name)) = .ok l := by
  simp [checkLevel, Checked.choice, WideText.toText?_ofText, Level.ofName?_name]

theorem ofJson_members (l : Level) (t : Text) :
    ofJson (.obj (Json.Members.ofWritten
      [(ofText levelKey, .str (ofText l.name)), (ofText textKey, .str (ofText t))])) =
        .ok ⟨l, ofText t⟩ ∧
    ofJson (.obj (Json.Members.ofWritten
      [(ofText textKey, .str (ofText t)), (ofText levelKey, .str (ofText l.name))])) =
        .ok ⟨l, ofText t⟩ := by
  have hne : ofText levelKey ≠ ofText textKey := by decide
  have hne' : ofText textKey ≠ ofText levelKey := by decide
  constructor <;>
    simp [ofJson, Json.Members.ofWritten, Json.Members.put, Json.Members.get?, hne, hne',
      Checked.required, Checked.string, checkLevel_name, Checked.both]

theorem ObjectForm.enclosed {a b w : Text} (h : ObjectForm a b w) :
    ∃ r, w = '{' :: (r ++ ['}']) := by
  cases h with
  | @mk p q r s => exact ⟨p ++ (a ++ (q ++ ',' :: (r ++ (b ++ s)))), by simp⟩

theorem RecordForm.enclosed {l : Level} {t w : Text} (h : RecordForm l t w) :
    ∃ r, w = '{' :: (r ++ ['}']) := by
  cases h with
  | levelFirst _ _ h => exact h.enclosed
  | textFirst _ _ h => exact h.enclosed

theorem read_of_form {j k v u a b w : Text} (ha : MemberForm j v a) (hb : MemberForm k u b)
    (h : ObjectForm a b w) : Json.read Json.records (ofText w) =
      .ok (.obj (Json.Members.ofWritten
        [(ofText j, .str (ofText v)), (ofText k, .str (ofText u))])) :=
  Json.read_of_document (Json.document_of_value (value_of_form ha hb h Json.records 199))

theorem parse?_of_form {l : Level} {t w : Text} (h : RecordForm l t w) :
    parse? (ofText w) = some ⟨l, ofText t⟩ := by
  obtain ⟨hfirst, hlast⟩ := ofJson_members l t
  cases h with
  | levelFirst ha hb ho =>
    rw [parse?, read_of_form ha hb ho]
    simp only [hfirst, Except.toOption]
  | textFirst ha hb ho =>
    rw [parse?, read_of_form hb ha ho]
    simp only [hlast, Except.toOption]

def written (m : Level) (t : Text) : Text :=
  '{' :: Json.stringText levelKey ++ ':' :: ' ' :: Json.stringText m.name ++ ',' :: ' ' ::
    Json.stringText textKey ++ ':' :: ' ' :: Json.stringText t ++ ['}']

theorem recordForm_written (l : Level) (t : Text) : RecordForm l t (written l t) := by
  have hm : ∀ k v : Text,
      MemberForm k v (Json.stringText k ++ ':' :: ' ' :: Json.stringText v) := by
    intro k v
    have h := MemberForm.mk (Json.stringBody_flatMap k) (Json.stringBody_flatMap v)
      (p := []) (q := [' ']) (by simp [Padding]) (by simp [Padding, isSpace])
    simpa [Json.stringText] using h
  have ho := ObjectForm.mk (a := Json.stringText levelKey ++ ':' :: ' ' :: Json.stringText l.name)
    (b := Json.stringText textKey ++ ':' :: ' ' :: Json.stringText t)
    (p := []) (q := []) (r := [' ']) (s := []) (by simp [Padding]) (by simp [Padding])
    (by simp [Padding, isSpace]) (by simp [Padding])
  refine .levelFirst (hm _ _) (hm _ _) ?_
  simpa [written] using ho

end ParserRelay.Message
