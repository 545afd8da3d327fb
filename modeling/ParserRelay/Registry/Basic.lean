import ParserRelay.Registry.Descriptor
/-! Registries of parsers: descriptors in order under distinct names. -/
namespace ParserRelay

structure Registry where
  descriptors : List Descriptor
  distinct : (descriptors.map Descriptor.name).Nodup

namespace Registry

def repeatedFrom (seen : List WideText) : List WideText → Option WideText
  | [] => none
  | n :: r => if n ∈ seen then some n else repeatedFrom (n :: seen) r

theorem nodup_of_repeatedFrom {names seen : List WideText} (h : repeatedFrom seen names = none) :
    names.Nodup ∧ ∀ n ∈ names, n ∉ seen := by
  induction names generalizing seen with
  | nil => simp
  | cons n r ih =>
    by_cases hn : n ∈ seen
    · simp [repeatedFrom, hn] at h
    · have hr := ih (by simpa [repeatedFrom, hn] using h)
      refine ⟨List.nodup_cons.mpr ⟨fun hm => hr.2 n hm (by simp), hr.1⟩, fun m hm => ?_⟩
      rcases List.mem_cons.mp hm with rfl | hm
      · exact hn
      · exact fun hs => hr.2 m hm (by simp [hs])

/-- A registry of the given descriptors; the first repeated name is refused. -/
def ofList (descriptors : List Descriptor) : Except Failure Registry :=
  match h : repeatedFrom [] (descriptors.map Descriptor.name) with
  | some n => .error (.duplicateParser n)
  | none => .ok ⟨descriptors, (nodup_of_repeatedFrom h).1⟩

def names (r : Registry) : List WideText := r.descriptors.map Descriptor.name

def builtIn : Registry := ⟨[.swift, .compose, .unitTest], by decide⟩

def find? (r : Registry) (identifier : WideText) : Option Descriptor :=
  r.descriptors.find? fun d => d.name = identifier

def contains (r : Registry) (name : ParserName) : Bool := (r.find? name.identifier).isSome

def get (r : Registry) (name : ParserName) : Except Failure Descriptor :=
  match r.find? name.identifier with
  | some d => .ok d
  | none => .error (.unknownParser name.identifier r.names)

def hint? (r : Registry) (stderr : WideText) (name : ParserName) : Option WideText :=
  match r.get name with
  | .ok d => d.hint stderr
  | .error _ => none

def announcement (r : Registry) : LogRecord :=
  Log.debug Log.registry (.ofString "Registered parsers: " ++ Text.joinWith (WideText.ofString ", ") r.names)

end Registry
end ParserRelay
