import ParserRelay.Proofs.FileSystem.Canonical
import ParserRelay.Proofs.Toolchain.Wrapper
/-!
# The nearest directory with a marker

The search goes up from the working directory and stops at the first directory that holds a marker,
or in which the system refuses to look for one. A setting leaves one directory to look at.
-/
namespace ParserRelay.Toolchain
open WideText (ofString)

/-- What is looked for from the working directory on the way up. -/
inductive Tool
  | package
  | wrapper

namespace Tool

def markers : Tool → List FileName
  | .package => [packageManifest]
  | .wrapper => [wrapperScript, wrapperBatch]

def test : Tool → FileSystem → Path → Except FileError Bool
  | .package => holdsPackage
  | .wrapper => holdsWrapper

def search : Tool → FileSystem → WideText → Option WideText → Except Failure Found
  | .package => swiftPackage
  | .wrapper => gradleWrapper

def Finds (tool : Tool) (fs : FileSystem) (cwd : WideText) (setting : Option WideText) (d : Path) :
    Prop := ∃ log, tool.search fs cwd setting = .ok (d, log)

def note : Tool → Path → Log
  | .package => report "Using Swift package at "
  | .wrapper => report "Using Gradle wrapper in "

def missing : Tool → Path → Failure
  | .package => .noSwiftPackage
  | .wrapper => .noWrapper

def missingAt : Tool → Path → Path → Failure
  | .package, base, _ => .noSwiftPackage base
  | .wrapper, _, d => .noWrapperAt d

end Tool

variable {fs : FileSystem} {cwd o : WideText} {setting : Option WideText} {base d n : Path}
  {ms : List FileName} {tool : Tool}

section Directory

def HasFile (fs : FileSystem) (d : Path) (m : FileName) : Prop :=
  ∃ content, fs.stat (d.child m) = .ok (.file content)

/-- One of the names is that of a file in the directory, or of a link that leads to a file. -/
def Holds (fs : FileSystem) (ms : List FileName) (d : Path) : Prop := ∃ m ∈ ms, HasFile fs d m

/-- The system finds a path too long when a name is looked up in the directory, and none of the names
before it is that of a file. -/
inductive Blocked (fs : FileSystem) (d : Path) : List FileName → Prop
  | here {m : FileName} {r : List FileName} :
      fs.stat (d.child m) = .error .nameTooLong → Blocked fs d (m :: r)
  | later {m : FileName} {r : List FileName} :
      ¬ HasFile fs d m → Blocked fs d r → Blocked fs d (m :: r)

def Clear (fs : FileSystem) (ms : List FileName) (d : Path) : Prop :=
  ¬ Holds fs ms d ∧ ¬ Blocked fs d ms

def lookFor (fs : FileSystem) (d : Path) : List FileName → Except FileError Bool
  | [] => .ok false
  | m :: r => match fs.isFile (d.child m) with
    | .ok false => lookFor fs d r
    | answer => answer

theorem Tool.test_eq (tool : Tool) (fs : FileSystem) (d : Path) :
    tool.test fs d = lookFor fs d tool.markers := by
  have last (m : FileName) : fs.isFile (d.child m) = lookFor fs d [m] := by
    unfold lookFor
    split
    · assumption
    · rfl
  cases tool with
  | package => exact last packageManifest
  | wrapper =>
    rw [test, holdsWrapper, last wrapperBatch]
    rfl

theorem Tool.usable_markers (tool : Tool) : ∀ m ∈ tool.markers, ∀ c ∈ m, c.usable := by
  cases tool <;> decide

theorem lookFor_cases (hd : d.fault? = none) (hms : ∀ m ∈ ms, ∀ c ∈ m, c.usable) :
    lookFor fs d ms = .ok true ∧ Holds fs ms d ∧ ¬ Blocked fs d ms ∨
    lookFor fs d ms = .ok false ∧ Clear fs ms d ∨
    (∃ t, lookFor fs d ms = .error (.system .nameTooLong t)) ∧ Blocked fs d ms := by
  induction ms with
  | nil => exact .inr (.inl ⟨rfl, by simp [Holds], nofun⟩)
  | cons m r ih =>
    have hm := Path.fault?_child hd (hms m List.mem_cons_self)
    have hrest := ih fun k hk => hms k (List.mem_cons_of_mem m hk)
    unfold lookFor
    rcases fs.isFile_cases hm with ⟨ha, hfile⟩ | ⟨ha, hno, hshort⟩ | ⟨ha, hlong⟩
    · rw [ha]
      refine .inl ⟨rfl, ⟨m, List.mem_cons_self, hfile⟩, ?_⟩
      rintro (hlong | ⟨hno, -⟩)
      · obtain ⟨content, hfile⟩ := hfile
        rw [hlong] at hfile
        cases hfile
      · exact hno hfile
    · have hno' : ¬ HasFile fs d m := fun ⟨content, hfile⟩ => hno content hfile
      have hholds : Holds fs (m :: r) d ↔ Holds fs r d := by simp [Holds, hno']
      have hblocked : Blocked fs d (m :: r) ↔ Blocked fs d r := by
        constructor
        · rintro (hlong | ⟨-, h⟩)
          · exact absurd hlong hshort
          · exact h
        · exact .later hno'
      rw [ha, Clear, hholds, hblocked]
      exact hrest
    · rw [ha]
      exact .inr (.inr ⟨⟨_, rfl⟩, .here hlong⟩)

theorem Tool.test_cases (tool : Tool) (fs : FileSystem) (hd : d.fault? = none) :
    tool.test fs d = .ok true ∧ Holds fs tool.markers d ∧ ¬ Blocked fs d tool.markers ∨
    tool.test fs d = .ok false ∧ Clear fs tool.markers d ∨
    (∃ t, tool.test fs d = .error (.system .nameTooLong t)) ∧ Blocked fs d tool.markers := by
  rw [tool.test_eq]
  exact lookFor_cases hd tool.usable_markers

end Directory

section Ancestry

/-- The directory lies on the way from the start up to another one, which it is not. -/
def Nearer (base d n : Path) : Prop := n ∈ base.ancestry ∧ d ∈ n.ancestry ∧ n ≠ d

theorem mem_ancestry_antisymm (h : d ∈ n.ancestry) (h' : n ∈ d.ancestry) : n = d := by
  obtain ⟨ha, hn⟩ := FileSystem.mem_ancestry.mp h
  obtain ⟨-, hn'⟩ := FileSystem.mem_ancestry.mp h'
  have hnames := hn'.eq_of_length (Nat.le_antisymm hn'.length_le hn.length_le)
  cases d
  cases n
  cases ha
  cases hnames
  rfl

theorem nearer_trichotomy (hd : d ∈ base.ancestry) (hn : n ∈ base.ancestry) :
    n = d ∨ Nearer base d n ∨ Nearer base n d := by
  obtain ⟨ha, hp⟩ := FileSystem.mem_ancestry.mp hd
  obtain ⟨ha', hp'⟩ := FileSystem.mem_ancestry.mp hn
  by_cases he : n = d
  · exact .inl he
  rcases List.prefix_or_prefix_of_prefix hp hp' with h | h
  · exact .inr (.inl ⟨hn, FileSystem.mem_ancestry.mpr ⟨ha.trans ha'.symm, h⟩, he⟩)
  · exact .inr (.inr ⟨hd, FileSystem.mem_ancestry.mpr ⟨ha'.trans ha.symm, h⟩, Ne.symm he⟩)

theorem pairwise_ancestry (base : Path) :
    base.ancestry.Pairwise fun p q => q ∈ p.ancestry := by
  rw [Path.ancestry, List.pairwise_map]
  refine List.Pairwise.imp ?_ List.pairwise_lt_range
  intro i j hij
  exact FileSystem.mem_ancestry.mpr ⟨rfl, List.take_prefix_take_left (by omega)⟩

theorem Nearer.mem_before {before after : List Path} (h : Nearer base d n)
    (hb : base.ancestry = before ++ d :: after) : n ∈ before := by
  obtain ⟨hn, hd, hne⟩ := h
  rw [hb] at hn
  rcases List.mem_append.mp hn with hn | hn
  · exact hn
  rcases List.mem_cons.mp hn with he | hn
  · exact absurd he hne
  · have hp := hb ▸ pairwise_ancestry base
    have hlater := (List.pairwise_cons.mp (List.pairwise_append.mp hp).2.1).1 n hn
    exact absurd (mem_ancestry_antisymm hd hlater) hne

theorem first?_cases (test : Path → Except FileError Bool) (places : List Path) :
    first? test places = .ok none ∧ (∀ p ∈ places, test p = .ok false) ∨
    ∃ before p after, places = before ++ p :: after ∧ (∀ q ∈ before, test q = .ok false) ∧
      (test p = .ok true ∧ first? test places = .ok (some p) ∨
        ∃ e, test p = .error e ∧ first? test places = .error e) := by
  induction places with
  | nil => exact .inl ⟨rfl, by simp⟩
  | cons p r ih =>
    unfold first?
    cases ht : test p with
    | error e => exact .inr ⟨[], p, r, rfl, by simp, .inr ⟨e, ht, rfl⟩⟩
    | ok answer =>
      cases answer with
      | true => exact .inr ⟨[], p, r, rfl, by simp, .inl ⟨ht, rfl⟩⟩
      | false =>
        rcases ih with ⟨hn, hr⟩ | ⟨before, q, after, rfl, hb, hq⟩
        · exact .inl ⟨hn, List.forall_mem_cons.mpr ⟨ht, hr⟩⟩
        · exact .inr ⟨p :: before, q, after, rfl, List.forall_mem_cons.mpr ⟨ht, hb⟩, hq⟩

end Ancestry

section WayUp

/-- On the way up from the start no directory before this one holds a marker or is blocked. -/
structure Tool.Reached (tool : Tool) (fs : FileSystem) (base d : Path) : Prop where
  above : d ∈ base.ancestry
  clear : ∀ n, Nearer base d n → Clear fs tool.markers n

structure Tool.Nearest (tool : Tool) (fs : FileSystem) (base d : Path) : Prop where
  reached : tool.Reached fs base d
  holds : Holds fs tool.markers d
  free : ¬ Blocked fs d tool.markers

theorem Tool.Reached.unique (h : tool.Reached fs base d) (h' : tool.Reached fs base n)
    (hd : ¬ Clear fs tool.markers d) (hn : ¬ Clear fs tool.markers n) : n = d := by
  rcases nearer_trichotomy h.above h'.above with he | hnear | hnear
  · exact he
  · exact absurd (h.clear n hnear) hn
  · exact absurd (h'.clear d hnear) hd

theorem Tool.clear_iff (hd : d.fault? = none) :
    tool.test fs d = .ok false ↔ Clear fs tool.markers d := by
  rcases tool.test_cases fs hd with ⟨ht, hh, -⟩ | ⟨ht, hc⟩ | ⟨⟨t, ht⟩, hb⟩
  · simp [ht, Clear, hh]
  · simp [ht, hc]
  · simp [ht, Clear, hb]

theorem Tool.wayUp_cases (tool : Tool) (fs : FileSystem) (hb : base.fault? = none) :
    first? (tool.test fs) base.ancestry = .ok none ∧
      (∀ d ∈ base.ancestry, Clear fs tool.markers d) ∨
    (∃ d, first? (tool.test fs) base.ancestry = .ok (some d) ∧ tool.Nearest fs base d) ∨
    ∃ d t, first? (tool.test fs) base.ancestry = .error (.system .nameTooLong t) ∧
      tool.Reached fs base d ∧ Blocked fs d tool.markers := by
  have hfault {d : Path} (hd : d ∈ base.ancestry) : d.fault? = none :=
    Path.fault?_of_mem_ancestry hd hb
  rcases first?_cases (tool.test fs) base.ancestry with
    ⟨hn, hall⟩ | ⟨before, d, after, hsplit, hbefore, hd⟩
  · exact .inl ⟨hn, fun d hd => (clear_iff (hfault hd)).mp (hall d hd)⟩
  · have hmem : d ∈ base.ancestry := by simp [hsplit]
    have hreached : tool.Reached fs base d :=
      ⟨hmem, fun n hn => (clear_iff (hfault hn.1)).mp (hbefore n (hn.mem_before hsplit))⟩
    rcases tool.test_cases fs (hfault hmem) with ⟨ht, hh, hf⟩ | ⟨ht, -⟩ | ⟨⟨t, ht⟩, hblock⟩
    · rcases hd with ⟨-, hfirst⟩ | ⟨e, he, -⟩
      · exact .inr (.inl ⟨d, hfirst, hreached, hh, hf⟩)
      · rw [ht] at he
        cases he
    · rcases hd with ⟨he, -⟩ | ⟨e, he, -⟩
      · rw [ht] at he
        cases he
      · rw [ht] at he
        cases he
    · rcases hd with ⟨he, -⟩ | ⟨e, he, hfirst⟩
      · rw [ht] at he
        cases he
      · rw [ht] at he
        cases he
        exact .inr (.inr ⟨d, t, hfirst, hreached, hblock⟩)

end WayUp

section Outcomes

theorem Tool.search_of_unset (tool : Tool) (hbase : canonical fs cwd = .ok base)
    (hs : setting = none ∨ setting = some []) : tool.search fs cwd setting =
      match first? (tool.test fs) base.ancestry with
      | .error e => .error (.file e)
      | .ok none => .error (tool.missing base)
      | .ok (some d) => .ok (d, tool.note d) := by
  have hunset : setting? setting = none := by rcases hs with rfl | rfl <;> rfl
  cases tool with
  | package =>
    rw [search, swiftPackage, hbase]
    simp only [packagePlaces, hunset, bind, Except.bind, files, test]
    cases first? (holdsPackage fs) base.ancestry with
    | error e => rfl
    | ok found => cases found <;> rfl
  | wrapper =>
    rw [search, gradleWrapper, hbase]
    simp only [hunset, bind, Except.bind, test]
    cases first? (holdsWrapper fs) base.ancestry with
    | error e => rfl
    | ok found => cases found <;> rfl

theorem Tool.search_of_unresolved {e : Failure} (tool : Tool) (h : canonical fs cwd = .error e)
    (setting : Option WideText) : tool.search fs cwd setting = .error e := by
  cases tool with
  | package =>
    rw [search, swiftPackage, h]
    rfl
  | wrapper =>
    rw [search, gradleWrapper, h]
    rfl

/-- The one directory that a setting leaves to look at: the one beside the project, or the one that is
named, by itself or by a file in it. -/
inductive Names (fs : FileSystem) (base : Path) (o : WideText) : Tool → Path → Prop
  | beside {d : Path} : fs.resolve (base.join (.ofText o)).parent = .ok d → Names fs base o .package d
  | directory {d : Path} : fs.resolve (base.join (.ofText o)) = .ok d →
      (∀ content, fs.stat d ≠ .ok (.file content)) → fs.stat d ≠ .error .nameTooLong →
      Names fs base o .wrapper d
  | script {s : Path} {content : Bytes} : fs.resolve (base.join (.ofText o)) = .ok s →
      fs.stat s = .ok (.file content) → Names fs base o .wrapper s.parent

theorem Names.fault? (h : Names fs base o tool d) : d.fault? = none := by
  cases h with
  | beside hr => exact FileSystem.fault?_of_resolve hr
  | directory hr _ _ => exact FileSystem.fault?_of_resolve hr
  | @script s content hr _ =>
    exact Path.fault?_of_mem_ancestry (FileSystem.parent_mem_ancestry s)
      (FileSystem.fault?_of_resolve hr)

theorem namedWrapper_eq {named : Path} {isFile : Bool}
    (hr : fs.resolve (base.join (.ofText o)) = .ok named) (hf : fs.isFile named = .ok isFile)
    (hd : d = if isFile then named.parent else named) : namedWrapper fs base o =
      match holdsWrapper fs d with
      | .error e => .error (.file e)
      | .ok true => .ok d
      | .ok false => .error (.noWrapperAt d) := by
  rw [namedWrapper, hr]
  simp only [files, hf, bind, Except.bind, ← hd]
  cases holdsWrapper fs d with
  | error e => rfl
  | ok answer => cases answer <;> rfl

theorem namedWrapper_of_names (h : Names fs base o .wrapper d) : namedWrapper fs base o =
    match holdsWrapper fs d with
    | .error e => .error (.file e)
    | .ok true => .ok d
    | .ok false => .error (.noWrapperAt d) := by
  have hfault {p : Path} (hr : fs.resolve (base.join (.ofText o)) = .ok p) : p.fault? = none :=
    FileSystem.fault?_of_resolve hr
  cases h with
  | directory hr hno hshort =>
    rcases fs.isFile_cases (hfault hr) with ⟨-, content, hfile⟩ | ⟨hf, -⟩ | ⟨-, hlong⟩
    · exact absurd hfile (hno content)
    · exact namedWrapper_eq hr hf (by simp)
    · exact absurd hlong hshort
  | @script s content hr hfile =>
    rcases fs.isFile_cases (hfault hr) with ⟨hf, -⟩ | ⟨-, hno, -⟩ | ⟨-, hlong⟩
    · exact namedWrapper_eq hr hf (by simp)
    · exact absurd hfile (hno content)
    · rw [hfile] at hlong
      cases hlong

theorem gradleWrapper_of_names (hbase : canonical fs cwd = .ok base) (ho : o ≠ [])
    (h : Names fs base o .wrapper d) : gradleWrapper fs cwd (some o) =
      match holdsWrapper fs d with
      | .error e => .error (.file e)
      | .ok true => .ok (d, [])
      | .ok false => .error (.noWrapperAt d) := by
  have hset : setting? (some o) = some o := by simp [setting?, ho]
  rw [gradleWrapper, hbase]
  simp only [hset, namedWrapper_of_names h, bind, Except.bind]
  cases holdsWrapper fs d with
  | error e => rfl
  | ok answer => cases answer <;> rfl

theorem Tool.search_of_names (hbase : canonical fs cwd = .ok base) (ho : o ≠ [])
    (h : Names fs base o tool d) : ∃ log, tool.search fs cwd (some o) =
      match tool.test fs d with
      | .error e => .error (.file e)
      | .ok true => .ok (d, log)
      | .ok false => .error (tool.missingAt base d) := by
  have hset : setting? (some o) = some o := by simp [setting?, ho]
  cases tool with
  | package =>
    obtain ⟨hr⟩ := h
    refine ⟨Tool.note .package d, ?_⟩
    rw [search, swiftPackage, hbase]
    simp only [packagePlaces, hset, hr, bind, Except.bind, files, test, first?]
    cases holdsPackage fs d with
    | error e => rfl
    | ok answer => cases answer <;> rfl
  | wrapper => exact ⟨[], gradleWrapper_of_names hbase ho h⟩

theorem not_clear_of_holds (h : Holds fs ms d) : ¬ Clear fs ms d := fun hc => hc.1 h

theorem not_clear_of_blocked (h : Blocked fs d ms) : ¬ Clear fs ms d := fun hc => hc.2 h

theorem Tool.missing_ne_file (tool : Tool) (base : Path) (e : FileError) :
    tool.missing base ≠ .file e := by
  cases tool <;> exact nofun

theorem Tool.missingAt_ne_file (tool : Tool) (base d : Path) (e : FileError) :
    tool.missingAt base d ≠ .file e := by
  cases tool <;> exact nofun

theorem Tool.wayUp_outcomes (tool : Tool) (hbase : canonical fs cwd = .ok base)
    (hs : setting = none ∨ setting = some []) :
    (∀ d, tool.Finds fs cwd setting d ↔ tool.Nearest fs base d) ∧
    (tool.search fs cwd setting = .error (tool.missing base) ↔
      ∀ d ∈ base.ancestry, Clear fs tool.markers d) ∧
    ((∃ t, tool.search fs cwd setting = .error (.file (.system .nameTooLong t))) ↔
      ∃ d, tool.Reached fs base d ∧ Blocked fs d tool.markers) := by
  have hfault := FileSystem.fault?_of_resolve (eq_ok_of_files hbase)
  unfold Finds
  rw [tool.search_of_unset hbase hs]
  rcases tool.wayUp_cases fs hfault with
    ⟨hf, hall⟩ | ⟨found, hf, hnear⟩ | ⟨stop, t, hf, hreach, hblock⟩
  · rw [hf]
    refine ⟨fun d => ⟨nofun, fun h => ?_⟩, ⟨fun _ => hall, fun _ => rfl⟩, ⟨?_, ?_⟩⟩
    · exact absurd (hall d h.reached.above) (not_clear_of_holds h.holds)
    · rintro ⟨t, h⟩
      exact absurd (Except.error.inj h) (tool.missing_ne_file base _)
    · rintro ⟨d, hreach, hblock⟩
      exact absurd (hall d hreach.above) (not_clear_of_blocked hblock)
  · rw [hf]
    have hunclear := not_clear_of_holds hnear.holds
    refine ⟨fun d => ⟨?_, fun h => ?_⟩, ⟨nofun, fun hall => ?_⟩, ⟨nofun, ?_⟩⟩
    · rintro ⟨log, h⟩
      cases h
      exact hnear
    · rw [hnear.reached.unique h.reached hunclear (not_clear_of_holds h.holds)]
      exact ⟨_, rfl⟩
    · exact absurd (hall found hnear.reached.above) hunclear
    · rintro ⟨d, hreach, hblock⟩
      rw [hnear.reached.unique hreach hunclear (not_clear_of_blocked hblock)] at hblock
      exact absurd hblock hnear.free
  · rw [hf]
    have hunclear := not_clear_of_blocked hblock
    refine ⟨fun d => ⟨nofun, fun h => ?_⟩, ⟨fun h => ?_, fun hall => ?_⟩, ⟨?_, fun _ => ⟨t, rfl⟩⟩⟩
    · rw [h.reached.unique hreach (not_clear_of_holds h.holds) hunclear] at hblock
      exact absurd hblock h.free
    · exact absurd (Except.error.inj h).symm (tool.missing_ne_file base _)
    · exact absurd (hall stop hreach.above) hunclear
    · exact fun _ => ⟨stop, hreach, hblock⟩

theorem Tool.named_outcomes (hbase : canonical fs cwd = .ok base) (ho : o ≠ [])
    (h : Names fs base o tool d) :
    (∀ d', tool.Finds fs cwd (some o) d' ↔
      d' = d ∧ Holds fs tool.markers d ∧ ¬ Blocked fs d tool.markers) ∧
    (tool.search fs cwd (some o) = .error (tool.missingAt base d) ↔ Clear fs tool.markers d) ∧
    ((∃ t, tool.search fs cwd (some o) = .error (.file (.system .nameTooLong t))) ↔
      Blocked fs d tool.markers) := by
  obtain ⟨log, hsearch⟩ := tool.search_of_names hbase ho h
  unfold Finds
  rw [hsearch]
  rcases tool.test_cases fs h.fault? with ⟨ht, hh, hf⟩ | ⟨ht, hc⟩ | ⟨⟨t, ht⟩, hb⟩
  · rw [ht]
    refine ⟨fun d' => ⟨?_, ?_⟩, ⟨nofun, fun hc => absurd hh hc.1⟩, ⟨nofun, fun hb => absurd hb hf⟩⟩
    · rintro ⟨log', he⟩
      cases he
      exact ⟨rfl, hh, hf⟩
    · rintro ⟨rfl, -⟩
      exact ⟨log, rfl⟩
  · rw [ht]
    refine ⟨fun d' => ⟨nofun, fun hd => absurd hd.2.1 hc.1⟩, ⟨fun _ => hc, fun _ => rfl⟩,
      ⟨?_, fun hb => absurd hb hc.2⟩⟩
    rintro ⟨t, he⟩
    exact absurd (Except.error.inj he) (tool.missingAt_ne_file base d _)
  · rw [ht]
    refine ⟨fun d' => ⟨nofun, fun hd => absurd hb hd.2.2⟩, ⟨fun he => ?_, fun hc => absurd hb hc.2⟩,
      ⟨fun _ => hb, fun _ => ⟨t, rfl⟩⟩⟩
    exact absurd (Except.error.inj he).symm (tool.missingAt_ne_file base d _)

end Outcomes

section Samples

end Samples

end ParserRelay.Toolchain
