import ParserRelay.Text.Encoding
import ParserRelay.Text.Utf8.RoundTrip
/-! The bytes in which the system keeps texts. A character is kept as its UTF-8 form and a half that stands
for a byte as this byte, so different texts may be kept alike; what comes back is the form with as many
characters as the bytes allow. -/
namespace ParserRelay.WideText

def byteFor (s : Surrogate) : UInt8 := UInt8.ofNat (s.val - 0x400)

def halfFor (b : UInt8) : Surrogate := ⟨0x400 + b.toNat, by have := b.toNat_lt; omega⟩

def toSystem (w : WideText) : Bytes := w.flatMap fun
  | .char c => String.utf8EncodeChar c
  | .lone s => [byteFor s]

def ofSystemSkip : Nat → Bytes → WideText
  | _, [] => []
  | n + 1, _ :: r => ofSystemSkip n r
  | 0, b :: r => match Text.utf8First b r with
    | (some c, taken) => .char c :: ofSystemSkip taken r
    | (none, _) => .lone (halfFor b) :: ofSystemSkip 0 r

/-- The text that bytes of the system are read as: bytes that belong to no character stand alone. -/
def ofSystem (bytes : Bytes) : WideText := ofSystemSkip 0 bytes

def systemForm (w : WideText) : WideText := ofSystem (toSystem w)

def systemLength (w : WideText) : Nat := (toSystem w).length

theorem toSystem_append (w u : WideText) : toSystem (w ++ u) = toSystem w ++ toSystem u :=
  List.flatMap_append

theorem toSystem_ofText (t : Text) : toSystem (ofText t) = Text.toUtf8 t := by
  induction t with
  | nil => rfl
  | cons c t ih => exact congrArg (String.utf8EncodeChar c ++ ·) ih

theorem ofSystemSkip_append (t u : Bytes) : ofSystemSkip t.length (t ++ u) = ofSystem u := by
  induction t with
  | nil => rfl
  | cons b t ih => exact ih

theorem ofSystem_toUtf8_append (t : Text) (r : Bytes) :
    ofSystem (Text.toUtf8 t ++ r) = ofText t ++ ofSystem r := by
  induction t with
  | nil => rfl
  | cons c t ih =>
    obtain ⟨b, u, he, hf⟩ := Text.utf8First_encode c (Text.toUtf8 t ++ r)
    rw [Text.toUtf8, List.flatMap_cons, he, List.append_assoc]
    show ofSystemSkip 0 (b :: (u ++ (Text.toUtf8 t ++ r))) = _
    rw [ofSystemSkip, hf]
    exact congrArg (CodePoint.char c :: ·) ((ofSystemSkip_append u _).trans ih)

theorem byteFor_halfFor (b : UInt8) : byteFor (halfFor b) = b := by simp [byteFor, halfFor]

theorem ofSystemSkip_eq_drop (n : Nat) (bytes : Bytes) : ofSystemSkip n bytes = ofSystem (bytes.drop n) := by
  induction n generalizing bytes with
  | zero => rfl
  | succ n ih => cases bytes with
    | nil => rfl
    | cons b r => exact ih r

theorem toSystem_ofSystem (bytes : Bytes) : toSystem (ofSystem bytes) = bytes := by
  match bytes with
  | [] => rfl
  | b :: r =>
    rw [ofSystem, ofSystemSkip]
    split
    · rename_i c n h
      rw [ofSystemSkip_eq_drop]
      exact (congrArg (String.utf8EncodeChar c ++ ·) (toSystem_ofSystem (r.drop n))).trans
        (Text.encode_utf8First h)
    · exact congr (congrArg List.cons (byteFor_halfFor b)) (toSystem_ofSystem r)
  termination_by bytes.length
  decreasing_by all_goals (simp; try omega)

theorem systemForm_ofText (t : Text) : systemForm (ofText t) = ofText t := by
  simpa [systemForm, toSystem_ofText, ofSystem, ofSystemSkip] using ofSystem_toUtf8_append t []

end ParserRelay.WideText
