import ParserRelay.Proofs.FileSystem.Growth
import ParserRelay.Proofs.Path.Spelling
import ParserRelay.Toolchain
/-!
# Absolute directories

The canonical form of a path is absolute, and so is every directory that is found from it.
-/
namespace ParserRelay

theorem Path.isAbsolute_join {p q : Path} (h : p.isAbsolute = true) :
    (p.join q).isAbsolute = true := by
  unfold Path.join
  split
  · assumption
  · exact h

theorem Path.isAbsolute_of_mem_ancestry {p q : Path} (hq : q ∈ p.ancestry)
    (h : p.isAbsolute = true) : q.isAbsolute = true := by
  rw [Path.isAbsolute, (FileSystem.mem_ancestry.mp hq).1]
  exact h

theorem Path.head?_text {p : Path} (h : p.isAbsolute = true) : p.text.head? = some Path.slash := by
  obtain ⟨a, ns⟩ := p
  cases a with
  | current => cases h
  | root => rfl
  | doubleRoot => rfl

namespace FileSystem

variable {fs : FileSystem} {p q : Path}

theorem head?_appendText {t u : WideText} (h : t.head? = some Path.slash) :
    (appendText t u).head? = some Path.slash := by
  unfold appendText
  split
  · rename_i hu
    exact of_decide_eq_true hu
  · split <;> simp [h]

theorem isAbsolute_of_resolve (h : fs.resolve p = .ok q) : q.isAbsolute = true := by
  unfold resolve at h
  split at h
  · cases h
  rename_i trace htrace
  simp only at h
  split at h
  · cases h
  split at h
  · cases h
  cases h
  cases trace with
  | reached r seen => exact Path.isAbsolute_join rfl
  | looped t => exact Path.isAbsolute_ofText_iff.mpr (head?_appendText (Path.head?_text rfl))

end FileSystem

namespace Toolchain

variable {fs : FileSystem} {cwd t : WideText} {setting : Option WideText} {base d : Path} {log : Log}

theorem eq_ok_of_bind {ε α β : Type} {x : Except ε α} {f : α → Except ε β} {b : β}
    (h : x >>= f = .ok b) : ∃ a, x = .ok a ∧ f a = .ok b := by
  cases x with
  | error e => cases h
  | ok a => exact ⟨a, rfl, h⟩

theorem eq_ok_of_files {α : Type} {x : Except FileError α} {a : α} (h : files x = .ok a) :
    x = .ok a := by
  cases x with
  | error e => cases h
  | ok b =>
    cases h
    rfl

theorem canonical_of_resolve (h : fs.resolve (.ofText cwd) = .ok d) : canonical fs cwd = .ok d := by
  rw [canonical, h]
  rfl

theorem mem_of_first? {test : Path → Except FileError Bool} {places : List Path}
    (h : first? test places = .ok (some d)) : d ∈ places ∧ test d = .ok true := by
  induction places with
  | nil => cases h
  | cons p r ih =>
    unfold first? at h
    split at h
    · cases h
    · rename_i ht
      cases h
      exact ⟨List.mem_cons_self, ht⟩
    · obtain ⟨hm, ht⟩ := ih h
      exact ⟨List.mem_cons_of_mem p hm, ht⟩

theorem isAbsolute_of_canonical (h : canonical fs cwd = .ok d) : d.isAbsolute = true :=
  FileSystem.isAbsolute_of_resolve (eq_ok_of_files h)

theorem isAbsolute_of_namedWrapper (h : namedWrapper fs base t = .ok d) : d.isAbsolute = true := by
  obtain ⟨named, hn, h⟩ := eq_ok_of_bind h
  obtain ⟨isFile, -, h⟩ := eq_ok_of_bind h
  obtain ⟨holds, -, h⟩ := eq_ok_of_bind h
  have ha := FileSystem.isAbsolute_of_resolve (eq_ok_of_files hn)
  split at h
  · cases h
    split
    · exact ha
    · exact ha
  · cases h

theorem isAbsolute_of_gradleWrapper (h : gradleWrapper fs cwd setting = .ok (d, log)) :
    d.isAbsolute = true := by
  obtain ⟨base, hb, h⟩ := eq_ok_of_bind h
  have ha := isAbsolute_of_canonical hb
  split at h
  · obtain ⟨named, hn, h⟩ := eq_ok_of_bind h
    cases h
    exact isAbsolute_of_namedWrapper hn
  · obtain ⟨found, hf, h⟩ := eq_ok_of_bind h
    split at h
    · cases h
      exact Path.isAbsolute_of_mem_ancestry (mem_of_first? (eq_ok_of_files hf)).1 ha
    · cases h

end Toolchain
end ParserRelay
