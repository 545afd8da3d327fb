import ParserRelay.Proofs.Toolchain.Nearest
/-!
# Directories found again

A directory that was found from a working directory is found again from itself, from the canonical
form of the working directory, and by a setting that names it.
-/
namespace ParserRelay.Toolchain
open WideText (ofString)
open ParserRelay.Path (slash)

variable {fs : FileSystem} {cwd c : WideText} {setting : Option WideText} {base d : Path} {tool : Tool}

def projectName : FileName := ofString "App.xcodeproj"

/-- The setting that names a directory that was found: for a package, by a project in it. -/
def Tool.pin : Tool → Path → WideText
  | .package, d => d.text ++ slash :: projectName
  | .wrapper, d => d.text

theorem canonical_text {p : Path} (hp : p.Tidy) (h : fs.resolve p = .ok d) :
    canonical fs p.text = .ok d :=
  canonical_of_resolve ((Path.ofText_text hp).symm ▸ h)

theorem finds_of_canonical (hd : canonical fs c = .ok d) (hs : setting = none ∨ setting = some [])
    (h : Holds fs tool.markers d) (hf : ¬ Blocked fs d tool.markers) :
    tool.Finds fs c setting d := by
  refine ((tool.wayUp_outcomes hd hs).1 d).mpr ⟨⟨FileSystem.self_mem_ancestry d, ?_⟩, h, hf⟩
  rintro n ⟨hn, hd, hne⟩
  exact absurd (mem_ancestry_antisymm hd hn) hne

theorem stat_of_holds_marker {ms : List FileName} (h : Holds fs ms d) : fs.stat d = .ok .directory := by
  obtain ⟨m, -, content, hfile⟩ := h
  exact FileSystem.stat_of_child hfile

theorem join_of_isAbsolute {p : Path} (hp : p.isAbsolute = true) : base.join p = p := if_pos hp

theorem names_pin (tool : Tool) (base : Path) (hd : fs.resolve d = .ok d)
    (hstat : fs.stat d = .ok .directory) : Names fs base (tool.pin d) tool d := by
  have ha := FileSystem.isAbsolute_of_resolve hd
  have htidy := FileSystem.tidy_of_resolve hd
  have hjoin : base.join (.ofText d.text) = d := by
    rw [Path.ofText_text htidy, join_of_isAbsolute ha]
  cases tool with
  | wrapper =>
    refine .directory ?_ ?_ ?_
    · rwa [Tool.pin, hjoin]
    · simp [hstat]
    · simp [hstat]
  | package =>
    have hn : projectName ≠ [] ∧ projectName ≠ Path.dot ∧ slash ∉ projectName := by decide
    have habs : (Path.ofText (d.text ++ slash :: projectName)).isAbsolute = true := by
      rw [Path.isAbsolute_ofText_iff, List.head?_append, Path.head?_text ha]
      rfl
    have hnames : (Path.ofText (d.text ++ slash :: projectName)).parent.names = d.names := by
      rw [Path.parent, Path.names_ofText_append hn, Path.ofText_text htidy, List.dropLast_concat]
    have hparent : fs.resolve (Path.ofText (d.text ++ slash :: projectName)).parent = fs.resolve d :=
      FileSystem.resolve_congr (Path.tidy_ofText _).parent htidy (habs.trans ha.symm) hnames
    refine .beside ?_
    rw [Tool.pin, join_of_isAbsolute habs, hparent, hd]

/-- A directory that was found is a fixed point of the search. -/
theorem found_directory_fixed (hr : fs.Regular (.ofText cwd)) (hs : setting = none ∨ setting = some [])
    (h : tool.Finds fs cwd setting d) :
    tool.Finds fs d.text setting d ∧
    (∃ base, canonical fs cwd = .ok base ∧ tool.Finds fs base.text setting d) ∧
    ∀ c base, canonical fs c = .ok base → tool.Finds fs c (some (tool.pin d)) d := by
  cases hc : canonical fs cwd with
  | error e =>
    obtain ⟨log, hfound⟩ := h
    rw [tool.search_of_unresolved hc] at hfound
    cases hfound
  | ok base =>
    have hresolve := eq_ok_of_files hc
    have hnear := ((tool.wayUp_outcomes hc hs).1 d).mp h
    obtain ⟨ha, hbase⟩ := FileSystem.workedOff_of_resolve hresolve hr
    have hfault := FileSystem.fault?_of_resolve hresolve
    obtain ⟨-, -, -, -, hstat⟩ := FileSystem.resolve_eq_ok_iff.mp hresolve
    -- Everything above the canonical form is canonical itself, and the directory found exists.
    have habove := hnear.reached.above
    have hdir := stat_of_holds_marker hnear.holds
    have hd : fs.resolve d = .ok d := (hbase.ancestor ha habove).resolve_eq
      (Path.isAbsolute_of_mem_ancestry habove ha) (Path.fault?_of_mem_ancestry habove hfault)
      (by simp [hdir])
    have hcanonical := canonical_text hbase.tidy (hbase.resolve_eq ha hfault hstat)
    refine ⟨finds_of_canonical (canonical_text (FileSystem.tidy_of_resolve hd) hd) hs hnear.holds hnear.free,
      ⟨base, rfl, ((tool.wayUp_outcomes hcanonical hs).1 d).mpr hnear⟩, fun c base' hc' => ?_⟩
    have hset : tool.pin d ≠ [] := by
      cases tool with
      | package => simp [Tool.pin]
      | wrapper => exact Path.text_ne_nil d
    exact ((Tool.named_outcomes hc' hset (names_pin tool base' hd hdir)).1 d).mpr
      ⟨rfl, hnear.holds, hnear.free⟩

section Samples

deriving instance DecidableEq for FileSystem.Trace

def loopFiles : FileSystem := .atRoot [(ofString "loop", .link (ofString "loop")),
  (ofString "link", .link (ofString "real")),
  (ofString "real", .folder [(wrapperScript, .file []), (packageManifest, .file [])])]

def linkPath : Path := ⟨.root, [ofString "link"]⟩

def realPath : Path := ⟨.root, [ofString "real"]⟩

theorem linked_directory_fixed :
    Tool.package.Finds loopFiles realPath.text none realPath ∧
    (∃ base, canonical loopFiles (ofString "link/src") = .ok base ∧
      Tool.package.Finds loopFiles base.text none realPath) ∧
    ∀ c base, canonical loopFiles c = .ok base →
      Tool.package.Finds loopFiles c (some (Tool.package.pin realPath)) realPath := by
  have htrace : loopFiles.trace (.ofText (ofString "link/src")) =
      .ok (.reached ⟨.current, [ofString "real", ofString "src"]⟩
        [(⟨.current, [ofString "link"]⟩, some ⟨.current, [ofString "real"]⟩),
          (⟨.current, [ofString "link"]⟩, none)]) := by decide +kernel
  have hfound : (swiftPackage loopFiles (ofString "link/src") none).toOption.map (·.1) =
      some realPath := by decide +kernel
  exact found_directory_fixed ⟨_, _, htrace, by decide⟩ (.inl rfl) (eq_ok_of_first hfound)

def loopPath : Path := ⟨.root, [ofString "loop", Path.dotDot, ofString "link"]⟩

/-- A way to the link behind so many double dots that the path is too long. -/
def farPath : Path := ⟨.current, List.replicate 4096 Path.dotDot ++ [ofString "link"]⟩

theorem canonical_loopPath : canonical loopFiles loopPath.text = .ok linkPath := by
  have htidy : loopPath.Tidy := by
    unfold Path.Tidy
    decide
  exact canonical_text htidy (by decide +kernel)

theorem canonical_farPath : canonical loopFiles farPath.text = .ok linkPath := by
  have hlink : Path.Proper (ofString "link") := by constructor <;> decide
  have htidy : farPath.Tidy := by
    intro n hn
    rcases List.mem_append.mp hn with hn | hn
    · rw [List.eq_of_mem_replicate hn]
      decide
    · rw [List.mem_singleton.mp hn]
      decide
  have hlong : FileSystem.longestPath < farPath.text.systemLength := by
    refine Nat.lt_of_lt_of_le ?_ (Nat.sub_le_of_le_add (Path.length_names_le farPath))
    rw [farPath, List.length_append, List.length_replicate]
    decide
  exact canonical_text htidy
    (FileSystem.resolve_of_overlong hlink hlong rfl (by decide) (by decide))

theorem finds_linkPath (hc : canonical loopFiles c = .ok linkPath) :
    Tool.wrapper.Finds loopFiles c none linkPath := by
  have hlink : Tool.wrapper.test loopFiles linkPath = .ok true := by decide +kernel
  have hfault : linkPath.fault? = none := by decide
  rcases Tool.wrapper.test_cases loopFiles hfault with ⟨-, hh, hf⟩ | ⟨ht, -⟩ | ⟨⟨t, ht⟩, -⟩
  · exact finds_of_canonical hc (.inl rfl) hh hf
  · rw [hlink] at ht
    cases ht
  · rw [hlink] at ht
    cases ht

/-- On such a way the link itself is found, and from the link the directory behind it. -/
theorem stray_directory_moves :
    Tool.wrapper.Finds loopFiles loopPath.text none linkPath ∧
    Tool.wrapper.Finds loopFiles farPath.text none linkPath ∧
    Tool.wrapper.Finds loopFiles linkPath.text none realPath ∧
    ¬ Tool.wrapper.Finds loopFiles linkPath.text none linkPath := by
  have hfound : (gradleWrapper loopFiles linkPath.text none).toOption.map (·.1) = some realPath := by
    decide +kernel
  obtain ⟨log, hlog⟩ := eq_ok_of_first hfound
  refine ⟨finds_linkPath canonical_loopPath, finds_linkPath canonical_farPath, ⟨log, hlog⟩, ?_⟩
  rintro ⟨log', h⟩
  have hsame : linkPath = realPath := congrArg Prod.fst (Except.ok.inj (h.symm.trans hlog))
  exact absurd hsame (by decide)

end Samples

end ParserRelay.Toolchain
