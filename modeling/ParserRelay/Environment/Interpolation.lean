import ParserRelay.Environment.Basic
import ParserRelay.Environment.SettingsFile
/-! References to other settings inside values, and what loading a settings file does. -/
namespace ParserRelay.Environment
open ParserRelay.SettingsFile (Binding)

structure Reference where
  name : Text
  default : Text
  length : Nat

def reference? : Text → Option Reference
  | '{' :: t =>
    let ends := fun c => c = '}' || c = ':'
    let name := t.takeWhile (!ends ·)
    match t.dropWhile (!ends ·) with
    | '}' :: _ => some ⟨name, [], name.length + 2⟩
    | ':' :: '-' :: r =>
      let default := r.takeWhile (· ≠ '}')
      match r.dropWhile (· ≠ '}') with
      | [] => none
      | _ => some ⟨name, default, name.length + default.length + 4⟩
    | _ => none
  | _ => none

/-- A name that is known without a value stands for nothing; the default is for unknown names. -/
def Reference.value (known : WideText → Option (Option WideText)) (r : Reference) : WideText :=
  match known (.ofText r.name) with
  | none => .ofText r.default
  | some none => []
  | some (some t) => t

def expandSkip (known : WideText → Option (Option WideText)) : Nat → Text → WideText
  | _, [] => []
  | n + 1, _ :: t => expandSkip known n t
  | 0, c :: t => if c = '$' then match reference? t with
      | some r => r.value known ++ expandSkip known r.length t
      | none => .char c :: expandSkip known 0 t
    else .char c :: expandSkip known 0 t

def expand (known : WideText → Option (Option WideText)) (t : Text) : WideText := expandSkip known 0 t

/-- What a name refers to: the variables of the process or the bindings above, in this order or, if
the file takes precedence, in the other. -/
def known (fileFirst : Bool) (process : Entries WideText) (above : Entries (Option WideText))
    (name : WideText) : Option (Option WideText) :=
  let inFile := above.get? name
  let inProcess := (process.get? name).map some
  if fileFirst then inFile.or inProcess else inProcess.or inFile

def valuesFrom (fileFirst : Bool) (process : Entries WideText) (above : Entries (Option WideText)) :
    List Binding → Entries (Option WideText)
  | [] => above
  | b :: r =>
    let v := b.value.map (expand (known fileFirst process above))
    valuesFrom fileFirst process (above.set (.ofText b.key) v) r

def values (fileFirst : Bool) (process : Entries WideText) (bs : List Binding) :
    Entries (Option WideText) :=
  valuesFrom fileFirst process [] bs

structure Loading where
  after : Environment
  failure : Option VariableError

def exportAll (fileFirst : Bool) (env : Environment) :
    Entries (Option WideText) → Loading
  | [] => ⟨env, none⟩
  | (k, v) :: r => match v with
    | none => exportAll fileFirst env r
    | some t =>
      if !fileFirst && (env.process.get? k.systemForm).isSome then exportAll fileFirst env r
      else match env.setVariable k t with
        | .ok env => exportAll fileFirst env r
        | .error e => ⟨env, some e⟩

def loadFile (env : Environment) (file : Text) : Loading :=
  let bs := SettingsFile.bindings file
  let mapped := env.reload (values true env.process bs)
  exportAll mapped.forced mapped (values mapped.forced mapped.process bs)

def reloadFile (env : Environment) : Option Text → Loading
  | none => ⟨env.reload [], none⟩
  | some file => env.loadFile file

end ParserRelay.Environment
