import ParserRelay.Proofs.FileSystem.Resolution
import ParserRelay.Proofs.Toolchain.Nearest
/-!
# The script or its directory

A setting may name the directory of a wrapper or the script in it. The directory is found as it is;
of a script, the directory of what it leads to is found, which is another one if the script is a link
to a file elsewhere.
-/
namespace ParserRelay.Toolchain
open WideText (ofString)
open ParserRelay.Path (slash)

variable {fs : FileSystem} {cwd t : WideText} {base d : Path}

def scriptIn (t : WideText) : WideText := t ++ slash :: wrapperScript

theorem wrapperScript_proper : Path.Proper wrapperScript := by
  constructor <;> decide

theorem resolve_scriptIn (hbase : fs.resolve d = .ok base) (ht : t ≠ []) :
    fs.resolve (base.join (.ofText (scriptIn t))) =
      fs.resolve ((base.join (.ofText t)).child wrapperScript) := by
  have ha := FileSystem.isAbsolute_of_resolve hbase
  have htidy (u : WideText) : (base.join (.ofText u)).Tidy :=
    (FileSystem.tidy_of_resolve hbase).join (Path.tidy_ofText u)
  have hn := wrapperScript_proper
  have hname : wrapperScript ≠ [] ∧ wrapperScript ≠ Path.dot ∧ slash ∉ wrapperScript :=
    ⟨hn.ne_nil, hn.ne_dot, hn.no_slash⟩
  have habs : (base.join (.ofText (scriptIn t))).isAbsolute =
      ((base.join (.ofText t)).child wrapperScript).isAbsolute :=
    (Path.isAbsolute_join ha).trans (Path.isAbsolute_join (q := .ofText t) ha).symm
  exact FileSystem.resolve_congr (htidy _) ((htidy t).child hname) habs
    (Path.names_join_append base ht hname)

/-- A script and its directory name the same directory exactly if what the script leads to lies
there; so they do if the script is no link. -/
theorem script_or_directory (hr : fs.InReach) (hbase : canonical fs cwd = .ok base) (ht : t ≠ [])
    (hs : fs.isFile ((base.join (.ofText t)).child wrapperScript) = .ok true) :
    ∃ d f, fs.resolve (base.join (.ofText t)) = .ok d ∧
      fs.resolve ((base.join (.ofText t)).child wrapperScript) = .ok f ∧
      gradleWrapper fs cwd (some t) = .ok (d, []) ∧
      (∀ d', Tool.wrapper.Finds fs cwd (some (scriptIn t)) d' ↔
        d' = f.parent ∧ Holds fs Tool.wrapper.markers f.parent ∧
          ¬ Blocked fs f.parent Tool.wrapper.markers) ∧
      (gradleWrapper fs cwd (some (scriptIn t)) = gradleWrapper fs cwd (some t) ↔ f.parent = d) ∧
      (fs.linkTarget? (d.child wrapperScript) = none → f.parent = d) := by
  have hcwd := eq_ok_of_files hbase
  have habs : (base.join (.ofText t)).isAbsolute = true :=
    Path.isAbsolute_join (FileSystem.isAbsolute_of_resolve hcwd)
  have htidy := (FileSystem.tidy_of_resolve hcwd).join (Path.tidy_ofText t)
  obtain ⟨content, hcontent⟩ := FileSystem.stat_of_isFile hs
  obtain ⟨d, f, hd, hf, hdir, hscript, hfile, hlink⟩ := FileSystem.resolve_child_follows hr habs
    htidy wrapperScript_proper (FileSystem.fault?_of_isFile hs) hcontent
  -- The directory form looks at the directory, the script form at the one of what the script is.
  have hnames : Names fs base t .wrapper d := .directory hd (by simp [hdir]) (by simp [hdir])
  have hnames' : Names fs base (scriptIn t) .wrapper f.parent :=
    .script ((resolve_scriptIn hcwd ht).trans hf) hfile
  have hset : scriptIn t ≠ [] := by simp [scriptIn]
  have hholds : holdsWrapper fs d = .ok true := by
    have husable : (d.child wrapperScript).fault? = none :=
      Path.fault?_child (FileSystem.fault?_of_resolve hd) (by decide)
    simp only [holdsWrapper, FileSystem.isFile_of_stat husable hscript]
  have hfound : gradleWrapper fs cwd (some t) = .ok (d, []) := by
    rw [gradleWrapper_of_names hbase ht hnames, hholds]
  have houtcome := (Tool.wrapper.named_outcomes hbase hset hnames').1
  refine ⟨d, f, hd, hf, hfound, houtcome, ⟨fun h => ?_, fun h => ?_⟩, fun hl => ?_⟩
  · exact (((houtcome d).mp ⟨[], h.trans hfound⟩).1).symm
  · subst h
    rw [hfound, gradleWrapper_of_names hbase hset hnames', hholds]
  · rw [hlink hl]
    simp [Path.parent, Path.child]

section Samples

def rootText : WideText := ofString "/"

def projectPath : Path := ⟨.root, [ofString "project"]⟩

def aliasFiles : FileSystem := .atRoot [(ofString "alias", .link (ofString "project")),
  (ofString "project", .folder [(wrapperScript, .link (ofString "gradlew-8")),
    (ofString "gradlew-8", .file [])])]

theorem alias_script_or_directory :
    gradleWrapper aliasFiles rootText (some (scriptIn (ofString "alias"))) = .ok (projectPath, []) ∧
    gradleWrapper aliasFiles rootText (some (ofString "alias")) = .ok (projectPath, []) := by
  have hreach : aliasFiles.InReach := FileSystem.inReach_of_nodes (by decide +kernel)
  have hbase : canonical aliasFiles rootText = .ok ⟨.root, []⟩ :=
    canonical_of_resolve (by decide +kernel)
  have hne : ofString "alias" ≠ [] := by decide
  have hscript : (aliasFiles.isFile ((Path.join ⟨.root, []⟩ (.ofText (ofString "alias"))).child
      wrapperScript)) = .ok true := by decide +kernel
  have hdirectory : aliasFiles.resolve (Path.join ⟨.root, []⟩ (.ofText (ofString "alias"))) =
      .ok projectPath := by decide +kernel
  have hfile : aliasFiles.resolve ((Path.join ⟨.root, []⟩ (.ofText (ofString "alias"))).child
      wrapperScript) = .ok (projectPath.child (ofString "gradlew-8")) := by decide +kernel
  obtain ⟨d, f, hd, hf, hfound, -, hsame, -⟩ := script_or_directory hreach hbase hne hscript
  cases hdirectory.symm.trans hd
  cases hfile.symm.trans hf
  exact ⟨(hsame.mpr rfl).trans hfound, hfound⟩

def sharedPath : Path := ⟨.root, [ofString "shared"]⟩

/-- Where the script is a link to a file of another name elsewhere, it is not found by its own path. -/
theorem linked_script_not_found :
    sampleWorkplace.files.isFile (linkedPath.child wrapperScript) = .ok true ∧
    gradleWrapper sampleWorkplace.files rootText (some linkedPath.text) = .ok (linkedPath, []) ∧
    gradleWrapper sampleWorkplace.files rootText (some (scriptIn linkedPath.text)) =
      .error (.noWrapperAt sharedPath) := by
  have hbase : canonical sampleWorkplace.files rootText = .ok ⟨.root, []⟩ :=
    canonical_of_resolve (by decide +kernel)
  have hresolve : sampleWorkplace.files.resolve (Path.join ⟨.root, []⟩ (.ofText linkedPath.text)) =
      .ok linkedPath := by decide +kernel
  have hdir : sampleWorkplace.files.stat linkedPath = .ok .directory := by decide +kernel
  have hscript : sampleWorkplace.files.resolve (Path.join ⟨.root, []⟩
      (.ofText (scriptIn linkedPath.text))) = .ok (sharedPath.child (ofString "run")) := by
    decide +kernel
  have hfile : sampleWorkplace.files.isFile (sharedPath.child (ofString "run")) = .ok true := by
    decide +kernel
  have hholds : holdsWrapper sampleWorkplace.files linkedPath = .ok true := by decide +kernel
  have hmissing : holdsWrapper sampleWorkplace.files sharedPath = .ok false := by decide +kernel
  have hnames : Names sampleWorkplace.files ⟨.root, []⟩ linkedPath.text .wrapper linkedPath :=
    .directory hresolve (by simp [hdir]) (by simp [hdir])
  obtain ⟨content, hcontent⟩ := FileSystem.stat_of_isFile hfile
  refine ⟨by decide +kernel, ?_, ?_⟩
  · rw [gradleWrapper_of_names hbase (by decide) hnames, hholds]
  · have hparent : (sharedPath.child (ofString "run")).parent = sharedPath := by decide
    have hscriptNames := Names.script hscript hcontent
    rw [hparent] at hscriptNames
    rw [gradleWrapper_of_names hbase (by decide) hscriptNames, hmissing]

end Samples

end ParserRelay.Toolchain
