import ParserRelay.FileSystem.Edit
import ParserRelay.Text.Order
/-! Listings of what lies under the current directory, and the making of entries for a start. -/
namespace ParserRelay.FileSystem

def marked (l : Location) (n : Node) : WideText := Text.joinWith [Path.slash] l ++ match n with
  | .directory => [Path.slash]
  | .link _ => [.char '@']
  | .file _ => []

def nodesHere (fs : FileSystem) : List (Location × Node) := match fs.root.lookup? fs.here with
  | some (.folder f) => Folder.nodes [] f
  | _ => []

def listing (fs : FileSystem) : List (WideText × Node) :=
  Text.sortBy (fun e => Text.codes e.1) (fs.nodesHere.map fun (l, n) => (marked l n, n))

def changedSince (before after : FileSystem) : List (WideText × Node) :=
  let old := before.listing
  after.listing.filter fun e => !old.contains e

inductive Planting
  | file (content : Bytes)
  | directory
  | link (target : WideText)

def plant (fs : FileSystem) (p : Path) (what : Planting) : Change :=
  let c := fs.makeDirectories p.parent
  match c.failure with
  | some _ => c
  | none => match what with
    | .file content => c.after.write p content
    | .directory => c.after.ensureDirectory p
    | .link target => c.after.makeLink p target

end ParserRelay.FileSystem
