import ParserRelay.Path
/-! File trees: folders of named files, links and further folders. The view of a tree is the node at
each location; every operation on trees is described by its effect on that view. A tree has no
permissions, owners or hard links, so no operation on one is refused for want of a right. -/
namespace ParserRelay

abbrev Location := List FileName

inductive Entry
  | file (content : Bytes)
  | link (target : WideText)
  | folder (children : List (FileName × Entry))

inductive Node
  | file (content : Bytes)
  | link (target : WideText)
  | directory
  deriving DecidableEq

def Entry.node : Entry → Node
  | .file c => .file c
  | .link t => .link t
  | .folder _ => .directory

abbrev Folder := List (FileName × Entry)

namespace Folder

def child? (name : FileName) : Folder → Option Entry
  | [] => none
  | (n, e) :: r => if n = name then some e else child? name r

def setChild (name : FileName) (entry : Entry) : Folder → Folder
  | [] => [(name, entry)]
  | (n, e) :: r => if n = name then (n, entry) :: r else (n, e) :: setChild name entry r

def removeChild (name : FileName) (f : Folder) : Folder := f.filter (·.1 ≠ name)

def alterChild (name : FileName) : Option Entry → Folder → Folder
  | some e => setChild name e
  | none => removeChild name

def below : Option Entry → Location → Option Entry
  | e, [] => e
  | some (.folder f), n :: r => below (child? n f) r
  | _, _ :: _ => none

/-- An entry with what stands at a location below it replaced; without a directory there it stays. -/
def alter (new : Option Entry) : Option Entry → Location → Option Entry
  | _, [] => new
  | some (.folder f), n :: r => some (.folder (alterChild n (alter new (child? n f) r) f))
  | e, _ :: _ => e

def lookup? (f : Folder) (l : Location) : Option Entry := below (some (.folder f)) l

def node? (f : Folder) (l : Location) : Option Node := (lookup? f l).map Entry.node

def replace (new : Option Entry) (f : Folder) : Location → Folder
  | [] => f
  | n :: r => alterChild n (alter new (child? n f) r) f

def put (entry : Entry) : Folder → Location → Folder := replace (some entry)

def remove : Folder → Location → Folder := replace none

mutual

def nodes (above : Location) : Folder → List (Location × Node)
  | [] => []
  | (n, e) :: r => entryNodes (above ++ [n]) e ++ nodes above r

def entryNodes (l : Location) : Entry → List (Location × Node)
  | .file c => [(l, .file c)]
  | .link t => [(l, .link t)]
  | .folder f => (l, .directory) :: nodes l f

end

def linkCount (f : Folder) : Nat :=
  ((nodes [] f).filter fun (_, n) => match n with
    | .link _ => true
    | _ => false).length

end Folder

structure FileSystem where
  root : Folder
  here : Location
  here_plain : ∀ n ∈ here, Path.PlainName n
  here_directory : root.node? here = some .directory

namespace FileSystem

def node? (fs : FileSystem) (l : Location) : Option Node := fs.root.node? l

/-- The tree after a change. One that would take away the current directory is not made. -/
def withRoot (fs : FileSystem) (root : Folder) : FileSystem :=
  if h : root.node? fs.here = some .directory then { fs with root, here_directory := h } else fs

def put (fs : FileSystem) (l : Location) (e : Entry) : FileSystem := fs.withRoot (fs.root.put e l)

def remove (fs : FileSystem) (l : Location) : FileSystem := fs.withRoot (fs.root.remove l)

end FileSystem
end ParserRelay
