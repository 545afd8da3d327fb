import ParserRelay.Text.SystemForm
/-! Path texts and their lexical algebra. A path is where it starts and the names on it; empty names
and single dots vanish when a text is read, double dots stay. -/
namespace ParserRelay

/-- Where a path starts. Two slashes exactly are kept apart from the root. -/
inductive Anchor
  | current
  | root
  | doubleRoot
  deriving DecidableEq

abbrev FileName := WideText

structure Path where
  anchor : Anchor
  names : List FileName
  deriving DecidableEq

inductive PathFault
  | unencoded (run : LoneRun)
  | nullCharacter
  deriving DecidableEq

namespace Path

def slash : CodePoint := .char '/'
def dot : FileName := [.char '.']
def dotDot : FileName := [.char '.', .char '.']

def anchorOf : Nat → Anchor
  | 0 => .current
  | 2 => .doubleRoot
  | _ => .root

def anchorText : Anchor → WideText
  | .current => []
  | .root => [slash]
  | .doubleRoot => [slash, slash]

/-- A name in a tree: it stands for itself, and the system gives it back as it is. -/
def PlainName (n : FileName) : Prop :=
  n ≠ [] ∧ n ≠ dot ∧ n ≠ dotDot ∧ slash ∉ n ∧ .char '\x00' ∉ n ∧ n.systemForm = n

instance (n : FileName) : Decidable (PlainName n) := inferInstanceAs (Decidable (_ ∧ _))

def parts (t : WideText) : List FileName := Text.splitOn slash t

def ofText (t : WideText) : Path :=
  ⟨anchorOf (t.takeWhile (· = slash)).length, (parts t).filter fun n => n ≠ [] ∧ n ≠ dot⟩

def text (p : Path) : WideText :=
  let t := anchorText p.anchor ++ Text.joinWith [slash] p.names
  if t.isEmpty then dot else t

def isAbsolute (p : Path) : Bool := p.anchor ≠ .current

def join (p q : Path) : Path := if q.isAbsolute then q else ⟨p.anchor, p.names ++ q.names⟩

def child (p : Path) (name : FileName) : Path := ⟨p.anchor, p.names ++ [name]⟩

def parent (p : Path) : Path := ⟨p.anchor, p.names.dropLast⟩

def ancestry (p : Path) : List Path :=
  (List.range (p.names.length + 1)).map fun n => ⟨p.anchor, p.names.take (p.names.length - n)⟩

def faultOf? (t : WideText) : Option PathFault := match WideText.refused? t with
  | some run => some (.unencoded run)
  | none => if t.contains (.char '\x00') then some .nullCharacter else none

def fault? (p : Path) : Option PathFault := faultOf? p.text

def climb (reversed : List FileName) (name : FileName) : List FileName :=
  if name = dotDot then reversed.tail else name :: reversed

/-- The path without double dots, read as if no name on it were a link. -/
def collapsed (p : Path) : Path := ⟨p.anchor, (p.names.foldl climb []).reverse⟩

end Path
end ParserRelay
