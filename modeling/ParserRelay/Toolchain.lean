import ParserRelay.Failure
import ParserRelay.FileSystem.Resolve
import ParserRelay.Log
/-! The search for the build tools of parsers: the nearest directory on the way up from the working
directory that holds the marker, or the one place that a configuration names. -/
namespace ParserRelay.Toolchain

def packageManifest : FileName := .ofString "Package.swift"
def wrapperScript : FileName := .ofString "gradlew"
def wrapperBatch : FileName := .ofString "gradlew.bat"

def files {α : Type} : Except FileError α → Except Failure α
  | .ok a => .ok a
  | .error e => .error (.file e)

def canonical (fs : FileSystem) (t : WideText) : Except Failure Path := files (fs.resolve (Path.ofText t))

def holdsPackage (fs : FileSystem) (d : Path) : Except FileError Bool := fs.isFile (d.child packageManifest)

/-- Either form of the wrapper will do; the second is looked for only without the first. -/
def holdsWrapper (fs : FileSystem) (d : Path) : Except FileError Bool :=
  match fs.isFile (d.child wrapperScript) with
  | .ok false => fs.isFile (d.child wrapperBatch)
  | r => r

def first? (test : Path → Except FileError Bool) : List Path → Except FileError (Option Path)
  | [] => .ok none
  | p :: r => match test p with
    | .error e => .error e
    | .ok true => .ok (some p)
    | .ok false => first? test r

def setting? : Option WideText → Option WideText
  | some t => if t.isEmpty then none else some t
  | none => none

abbrev Found := Path × Log

def report (what : String) (d : Path) : Log := [Log.debug Log.toolchain (.ofString what ++ d.text)]

/-- Where a package is looked for: beside the project, or in the working directory and above it. -/
def packagePlaces (fs : FileSystem) (base : Path) (project : Option WideText) : Except FileError (List Path) :=
  match setting? project with
  | some t => match fs.resolve (Path.join base (Path.ofText t)).parent with
    | .ok d => .ok [d]
    | .error e => .error e
  | none => .ok base.ancestry

def swiftPackage (fs : FileSystem) (cwd : WideText) (project : Option WideText) : Except Failure Found := do
  let base ← canonical fs cwd
  let places ← files (packagePlaces fs base project)
  match ← files (first? (holdsPackage fs) places) with
  | some d => .ok (d, report "Using Swift package at " d)
  | none => .error (.noSwiftPackage base)

def namedWrapper (fs : FileSystem) (base : Path) (t : WideText) : Except Failure Path := do
  let named ← files (fs.resolve (Path.join base (Path.ofText t)))
  let d := if ← files (fs.isFile named) then named.parent else named
  if ← files (holdsWrapper fs d) then .ok d else .error (.noWrapperAt d)

def gradleWrapper (fs : FileSystem) (cwd : WideText) (setting : Option WideText) : Except Failure Found := do
  let base ← canonical fs cwd
  match setting? setting with
  | some t => do
    let d ← namedWrapper fs base t
    .ok (d, [])
  | none => match ← files (first? (holdsWrapper fs) base.ancestry) with
    | some d => .ok (d, report "Using Gradle wrapper in " d)
    | none => .error (.noWrapper base)

def wrapperExecutable (d : Path) : Path := d.child wrapperScript

end ParserRelay.Toolchain
