import ParserRelay.FileSystem.Error
import ParserRelay.FileSystem.Tree
/-! Following a path through a tree with links, as the system does it: names are taken one by one,
double dots lead to the parent of where the walk stands, and at most forty links are followed. -/
namespace ParserRelay.FileSystem
open ParserRelay.Path (dot dotDot slash)

/-- Where a walk ends. Without a node, the location is free and lies in an existing directory. -/
structure Place where
  location : Location
  node : Option Node

inductive Ending
  /-- A link there is not followed. -/
  | itself
  | followed
  /-- A link is followed, and a file is asked for: a slash behind the name is refused. -/
  | written
  deriving DecidableEq

/-- The steps that a link's target stands for; a slash at its end adds an empty one. -/
def steps (target : WideText) : List FileName :=
  (Path.parts target).filter (· ≠ []) ++ if target.getLast? = some slash then [[]] else []

def startsAtRoot (target : WideText) : Bool := target.head? = some slash

def longestName : Nat := 255
def longestPath : Nat := 4095
def linkBudget : Nat := 40

def under (l : Location) (n : FileName) : Location := l ++ [n.systemForm]

/-- Walks on from a location; `jump` continues behind a link. Dots and empty steps stay where they
are, which has to be a directory. -/
def walkWith (jump : Location → List FileName → Except SystemError Place) (root : Folder) (ending : Ending) :
    Location → List FileName → Except SystemError Place
  | l, [] => .ok ⟨l, root.node? l⟩
  | l, n :: r =>
    if root.node? l ≠ some .directory then .error .notDirectory
    else if n = dot ∨ n = [] then walkWith jump root ending l r
    else if n = dotDot then walkWith jump root ending l.dropLast r
    else if ending = .written ∧ r = [[]] then .error .isDirectory
    else if longestName < n.systemLength then .error .nameTooLong
    else match root.node? (under l n) with
      | none => if r.isEmpty then .ok ⟨under l n, none⟩ else .error .noEntry
      | some (.link target) =>
        if r.isEmpty && ending = .itself then .ok ⟨under l n, some (.link target)⟩
        else jump (if startsAtRoot target then [] else l) (steps target ++ r)
      | some _ => walkWith jump root ending (under l n) r

def walk (root : Folder) (ending : Ending) : Nat → Location → List FileName → Except SystemError Place
  | 0 => walkWith (fun _ _ => .error .tooManyLinks) root ending
  | budget + 1 => walkWith (walk root ending budget) root ending

def startOf (fs : FileSystem) (p : Path) : Location := if p.isAbsolute then [] else fs.here

def locate (fs : FileSystem) (ending : Ending) (p : Path) : Except SystemError Place :=
  if longestPath < p.text.systemLength then .error .nameTooLong
  else walk fs.root ending linkBudget (fs.startOf p) p.names

def stat (fs : FileSystem) (p : Path) : Except SystemError Node :=
  match fs.locate .followed p with
  | .error e => .error e
  | .ok ⟨_, none⟩ => .error .noEntry
  | .ok ⟨_, some n⟩ => .ok n

def holds (fs : FileSystem) (test : Node → Bool) (p : Path) : Except FileError Bool :=
  if p.fault?.isSome then .ok false else
  match fs.stat p with
  | .ok n => .ok (test n)
  | .error .nameTooLong => .error (.system .nameTooLong p.text)
  | .error _ => .ok false

def isFileNode : Node → Bool
  | .file _ => true
  | _ => false

def isFile (fs : FileSystem) (p : Path) : Except FileError Bool := fs.holds isFileNode p

def isDirectory (fs : FileSystem) (p : Path) : Except FileError Bool := fs.holds (· = .directory) p

def read? (fs : FileSystem) (p : Path) : Option Bytes := match fs.stat p with
  | .ok (.file c) => some c
  | _ => none

end ParserRelay.FileSystem
