import ParserRelay.FileSystem.Lookup
/-! Changes of a tree. Each returns the tree that it leaves, also where it fails part of the way. -/
namespace ParserRelay.FileSystem

structure Change where
  after : FileSystem
  failure : Option FileError

def Change.failed (fs : FileSystem) (e : SystemError) (p : Path) : Change := ⟨fs, some (.system e p.text)⟩

def ifUsable (fs : FileSystem) (p : Path) (change : Change) : Change := match p.fault? with
  | some fault => ⟨fs, some (.unusable fault)⟩
  | none => change

def makeDirectory (fs : FileSystem) (p : Path) : Change :=
  fs.ifUsable p (match fs.locate .itself p with
    | .error e => .failed fs e p
    | .ok ⟨_, some _⟩ => .failed fs .exists p
    | .ok ⟨l, none⟩ => ⟨fs.put l (.folder []), none⟩)

def unlessPresent (p : Path) (c : Change) (e : FileError) : Change :=
  match c.after.isDirectory p with
  | .ok true => ⟨c.after, none⟩
  | .ok false => ⟨c.after, some e⟩
  | .error e' => ⟨c.after, some e'⟩

def ensureDirectory (fs : FileSystem) (p : Path) : Change :=
  let c := fs.makeDirectory p
  match c.failure with
  | none => c
  | some (.unusable _) => c
  | some (.system .noEntry _) => c
  | some e => unlessPresent p c e

/-- Makes a directory and those of its parents that are missing; the fuel is the number of names. -/
def ensureDirectories : Nat → FileSystem → Path → Change
  | 0, fs, p => fs.ensureDirectory p
  | n + 1, fs, p =>
    let c := fs.ensureDirectory p
    match c.failure with
    | some (.system .noEntry _) =>
      let above := ensureDirectories n c.after p.parent
      match above.failure with
      | some e => ⟨above.after, some e⟩
      | none => above.after.ensureDirectory p
    | _ => c

def makeDirectories (fs : FileSystem) (p : Path) : Change := ensureDirectories p.names.length fs p

/-- Writes a file, through links, in place of any content it had. -/
def write (fs : FileSystem) (p : Path) (content : Bytes) : Change :=
  fs.ifUsable p (match fs.locate .written p with
    | .error e => .failed fs e p
    | .ok ⟨_, some .directory⟩ => .failed fs .isDirectory p
    | .ok ⟨l, _⟩ => ⟨fs.put l (.file content), none⟩)

def discard (fs : FileSystem) (p : Path) : Change :=
  fs.ifUsable p (match fs.locate .itself p with
    | .error .noEntry => ⟨fs, none⟩
    | .error e => .failed fs e p
    | .ok ⟨_, none⟩ => ⟨fs, none⟩
    | .ok ⟨_, some .directory⟩ => .failed fs .isDirectory p
    | .ok ⟨l, some _⟩ => ⟨fs.remove l, none⟩)

/-- Where a link with the given target text can be made. An empty text names nothing. -/
def linkPlace (fs : FileSystem) (p : Path) (target : WideText) : Except SystemError Location :=
  if target.isEmpty then .error .noEntry
  else if longestPath < target.systemLength then .error .nameTooLong
  else match fs.locate .itself p with
    | .error e => .error e
    | .ok ⟨_, some _⟩ => .error .exists
    | .ok ⟨l, none⟩ => .ok l

def makeLink (fs : FileSystem) (p : Path) (target : WideText) : Change :=
  match Path.faultOf? target with
  | some fault => ⟨fs, some (.unusable fault)⟩
  | none => fs.ifUsable p (match fs.linkPlace p target with
    | .error e => ⟨fs, some (.linking e target p.text)⟩
    | .ok l => ⟨fs.put l (.link target.systemForm), none⟩)

def removeAll (fs : FileSystem) (p : Path) : Change :=
  fs.ifUsable p (match fs.locate .itself p with
    | .error e => .failed fs e p
    | .ok ⟨_, none⟩ => .failed fs .noEntry p
    | .ok ⟨l, some _⟩ => ⟨fs.remove l, none⟩)

end ParserRelay.FileSystem
