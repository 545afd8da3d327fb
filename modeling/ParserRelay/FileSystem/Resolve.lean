import ParserRelay.FileSystem.Lookup
/-! The canonical form of a path: absolute, without links and double dots. Names that do not exist
are kept as they are. Where a link leads back to itself the rest of the path is kept as well, and the
failure is reported only if the outcome still runs into the loop. -/
namespace ParserRelay.FileSystem
open ParserRelay.Path (dot dotDot slash)

/-- Links met so far, each with the path it leads to once that is known. -/
abbrev Seen := List (Path × Option Path)

def Seen.get? (p : Path) : Seen → Option (Option Path)
  | [] => none
  | (q, r) :: s => if q = p then some r else get? p s

inductive Trace
  | reached (p : Path) (seen : Seen)
  /-- A loop stopped the work; the text names the link and what was left. -/
  | looped (t : WideText)

def up (p : Path) : Path :=
  if p.isAbsolute then p.parent
  else match p.names.getLast? with
    | none => p.child dotDot
    | some n => if n = dotDot then p.child dotDot else p.parent

def appendText (t u : WideText) : WideText :=
  if startsAtRoot u then u else if t.isEmpty || t.getLast? = some slash then t ++ u else t ++ slash :: u

def linkTarget? (fs : FileSystem) (p : Path) : Option WideText := match fs.locate .itself p with
  | .ok ⟨_, some (.link target)⟩ => some target
  | _ => none

def traceWith (jump : Seen → Path → WideText → Except FileError Trace) (fs : FileSystem) :
    Seen → Path → List FileName → Except FileError Trace
  | seen, p, [] => .ok (.reached p seen)
  | seen, p, n :: r =>
    if n = [] ∨ n = dot then traceWith jump fs seen p r
    else if n = dotDot then traceWith jump fs seen (up p) r
    else
      let q := p.child n
      let rest := Text.joinWith [slash] r
      match q.fault? with
      | some fault => .error (.unusable fault)
      | none => match fs.linkTarget? q with
        | none => traceWith jump fs seen q r
        | some target => match Seen.get? q seen with
          | some (some known) => traceWith jump fs seen known r
          | some none => .ok (.looped (appendText q.text rest))
          | none => match jump ((q, none) :: seen) p target with
            | .error e => .error e
            | .ok (.looped t) => .ok (.looped (appendText t rest))
            | .ok (.reached p' seen') => traceWith jump fs ((q, some p') :: seen') p' r

/-- Works off a target from where its link stands; the fuel bounds how deep links nest. -/
def traceTarget (fs : FileSystem) : Nat → Seen → Path → WideText → Except FileError Trace
  | 0, _, p, t => .ok (.looped (appendText p.text t))
  | fuel + 1, seen, p, t =>
    let start := if startsAtRoot t then ⟨.root, []⟩ else p
    traceWith (traceTarget fs fuel) fs seen start (Path.parts t)

/-- Each link is worked off at most once for each way to write its path: from the root, or from the
current directory and above it, behind some of the names of the path that is resolved. -/
def traceFuel (fs : FileSystem) : Nat := (fs.root.linkCount + 1) * (fs.here.length + 2 + longestPath)

def hereText (fs : FileSystem) : WideText := Path.text ⟨.root, fs.here⟩

def resolve (fs : FileSystem) (p : Path) : Except FileError Path :=
  match fs.traceTarget fs.traceFuel [] ⟨.current, []⟩ p.text with
  | .error e => .error e
  | .ok trace =>
    let q := match trace with
      | .reached q _ => Path.collapsed (Path.join ⟨.root, fs.here⟩ q)
      | .looped t => Path.collapsed (Path.ofText (appendText fs.hereText t))
    match q.fault? with
    | some fault => .error (.unusable fault)
    | none => match fs.stat q with
      | .error .tooManyLinks => .error (.linkLoop q.text)
      | _ => .ok q

end ParserRelay.FileSystem
