import ParserRelay.Proofs.FileSystem.Trace
/-!
# Canonical forms

What a path resolves to was put together from names that had been looked up and were no links. So it
resolves to itself, and so does every directory above it.
-/
namespace ParserRelay.FileSystem
open ParserRelay.Path (dotDot slash Proper)

variable {fs : FileSystem} {p q : Path} {n : FileName} {names r : List FileName} {seen seen' : Seen}
  {jump : Seen → Path → WideText → Except FileError Trace}

/-- A path whose names have been looked up, and none of them is a link. -/
inductive WorkedOff (fs : FileSystem) : Path → Prop
  | root : WorkedOff fs ⟨.root, []⟩
  | above (k : ℕ) : WorkedOff fs ⟨.current, List.replicate k dotDot⟩
  | child {p : Path} {n : FileName} : WorkedOff fs p → Proper n →
      fs.linkTarget? (p.child n) = none → WorkedOff fs (p.child n)

namespace WorkedOff

theorem proper (h : WorkedOff fs p) (ha : p.isAbsolute = true) : ∀ n ∈ p.names, Proper n := by
  induction h with
  | root => simp
  | above k => cases ha
  | child _ hn _ ih =>
    intro m hm
    rcases List.mem_append.mp hm with hm | hm
    · exact ih ha m hm
    · rwa [List.mem_singleton.mp hm]

theorem anchor (h : WorkedOff fs p) : p.anchor = .root ∨ p.anchor = .current := by
  induction h with
  | root => exact .inl rfl
  | above k => exact .inr rfl
  | child _ _ _ ih => exact ih

theorem names_eq (h : WorkedOff fs p) (ha : p.anchor = .current) :
    ∃ k ns, p.names = List.replicate k dotDot ++ ns ∧ ∀ n ∈ ns, Proper n := by
  induction h with
  | root => cases ha
  | above k => exact ⟨k, [], by simp, by simp⟩
  | @child p n _ hn _ ih =>
    obtain ⟨k, ns, hp, hns⟩ := ih ha
    refine ⟨k, ns ++ [n], by simp [Path.child, hp], ?_⟩
    intro m hm
    rcases List.mem_append.mp hm with hm | hm
    · exact hns m hm
    · rwa [List.mem_singleton.mp hm]

theorem up (h : WorkedOff fs p) : WorkedOff fs (up p) := by
  cases h with
  | root => exact .root
  | above k =>
    rw [up_above]
    exact .above (k + 1)
  | @child p n hp hn _ =>
    have hup : FileSystem.up (p.child n) = p := by
      unfold FileSystem.up
      split
      · simp [Path.parent, Path.child]
      · simp [Path.parent, Path.child, hn.ne_dotDot]
    rwa [hup]

theorem ancestor (h : WorkedOff fs p) (ha : p.isAbsolute = true) (hq : q ∈ p.ancestry) :
    WorkedOff fs q := by
  obtain ⟨hanchor, hn⟩ := mem_ancestry.mp hq
  induction h with
  | root =>
    obtain ⟨a, ns⟩ := q
    cases hanchor
    cases List.prefix_nil.mp hn
    exact .root
  | above k => cases ha
  | @child p n hp hproper hl ih =>
    rcases List.prefix_concat_iff.mp hn with he | hn
    · have hself : q = p.child n := by
        cases q
        cases hanchor
        cases he
        rfl
      rw [hself]
      exact .child hp hproper hl
    · exact ih ha (mem_ancestry.mpr ⟨hanchor, hn⟩) hanchor hn

end WorkedOff

def Seen.WorkedOff (fs : FileSystem) (seen : Seen) : Prop :=
  ∀ q r, Seen.get? q seen = some (some r) → FileSystem.WorkedOff fs r

theorem Seen.WorkedOff.met (h : Seen.WorkedOff fs seen) (q : Path) :
    Seen.WorkedOff fs ((q, none) :: seen) := by
  intro q' r hr
  unfold Seen.get? at hr
  split at hr
  · cases hr
  · exact h q' r hr

theorem Seen.WorkedOff.known (h : Seen.WorkedOff fs seen) (q : Path)
    (hp : FileSystem.WorkedOff fs p) : Seen.WorkedOff fs ((q, some p) :: seen) := by
  intro q' r hr
  unfold Seen.get? at hr
  split at hr
  · cases hr
    exact hp
  · exact h q' r hr

theorem Takes.workedOff
    (hjump : ∀ {seen p t p' seen'}, Seen.WorkedOff fs seen → WorkedOff fs p →
      jump seen p t = .ok (.reached p' seen') → WorkedOff fs p' ∧ Seen.WorkedOff fs seen')
    (hn : slash ∉ n) (hseen : Seen.WorkedOff fs seen) (hp : WorkedOff fs p)
    (h : Takes jump fs seen p n seen' q) :
    WorkedOff fs q ∧ Seen.WorkedOff fs seen' := by
  cases h with
  | stay _ => exact ⟨hp, hseen⟩
  | climb => exact ⟨hp.up, hseen⟩
  | pass hs hu _ hl =>
    obtain ⟨hne, hdot⟩ := not_or.mp hs
    exact ⟨.child hp ⟨hne, hdot, hu, hn⟩ hl, hseen⟩
  | known _ _ _ _ hk => exact ⟨hseen _ q hk, hseen⟩
  | follow _ _ _ _ _ hj =>
    obtain ⟨hq, hseen'⟩ := hjump (hseen.met _) hp hj
    exact ⟨hq, hseen'.known _ hq⟩

theorem workedOff_traceWith
    (hjump : ∀ {seen p t p' seen'}, Seen.WorkedOff fs seen → WorkedOff fs p →
      jump seen p t = .ok (.reached p' seen') → WorkedOff fs p' ∧ Seen.WorkedOff fs seen')
    (hnames : ∀ n ∈ names, slash ∉ n) (hseen : Seen.WorkedOff fs seen) (hp : WorkedOff fs p)
    (h : traceWith jump fs seen p names = .ok (.reached q seen')) :
    WorkedOff fs q ∧ Seen.WorkedOff fs seen' := by
  induction names generalizing seen p with
  | nil =>
    cases h
    exact ⟨hp, hseen⟩
  | cons n r ih =>
    obtain ⟨s, k, hstep, hrest⟩ := takes_of_reached h
    obtain ⟨hk, hs⟩ := hstep.workedOff hjump (hnames n List.mem_cons_self) hseen hp
    exact ih (fun m hm => hnames m (List.mem_cons_of_mem n hm)) hs hk hrest

theorem workedOff_traceTarget (fuel : ℕ) {t : WideText} (hseen : Seen.WorkedOff fs seen)
    (hp : WorkedOff fs p) (h : fs.traceTarget fuel seen p t = .ok (.reached q seen')) :
    WorkedOff fs q ∧ Seen.WorkedOff fs seen' := by
  induction fuel generalizing seen p t q seen' with
  | zero => cases h
  | succ fuel ih =>
    rw [traceTarget] at h
    refine workedOff_traceWith (fun hs hp hj => ih hs hp hj)
      (fun n hn => (Text.splitOn_pieces hn).1) hseen ?_ h
    split
    · exact .root
    · exact hp

theorem workedOff_trace (h : fs.trace p = .ok (.reached q seen)) : WorkedOff fs q := by
  have hstart : WorkedOff fs ⟨.current, []⟩ := .above 0
  have hnone : Seen.WorkedOff fs [] := fun _ _ hr => by cases hr
  exact (workedOff_traceTarget _ hnone hstart h).1

section Fixed

theorem WorkedOff.traceWith_eq (h : WorkedOff fs p) (ha : p.isAbsolute = true)
    (hf : p.fault? = none) (r : List FileName) :
    traceWith jump fs seen ⟨.root, []⟩ (p.names ++ r) = traceWith jump fs seen p r := by
  induction h generalizing r with
  | root => rfl
  | above k => cases ha
  | @child p n hp hn hl ih =>
    have habove := mem_ancestry_child p n
    rw [Path.child, List.append_assoc, ih ha (Path.fault?_of_mem_ancestry habove hf)]
    exact traceWith_pass hn hf hl

theorem WorkedOff.trace_eq (h : WorkedOff fs p) (ha : p.isAbsolute = true)
    (hf : p.fault? = none) : fs.trace p = .ok (.reached p []) := by
  rw [FileSystem.trace_eq (Path.tidy_of_proper (h.proper ha)), origin, if_pos ha,
    ← List.append_nil p.names, h.traceWith_eq ha hf]
  rfl

/-- A path that has been worked off resolves to itself. -/
theorem WorkedOff.resolve_eq (h : WorkedOff fs p) (ha : p.isAbsolute = true)
    (hf : p.fault? = none) (hs : fs.stat p ≠ .error .tooManyLinks) : fs.resolve p = .ok p :=
  resolve_eq_ok_iff.mpr ⟨_, h.trace_eq ha hf, fromRoot_of_absolute ha (h.proper ha), hf, hs⟩

end Fixed

section FromRoot

variable {ending : Ending} {b : ℕ} {x : Place}

/-- Of the names of the current directory as many are left as there are no double dots for. -/
theorem names_fromRoot {k : ℕ} {ns : List FileName} (ha : p.anchor = .current)
    (hp : p.names = List.replicate k dotDot ++ ns) (hns : ∀ n ∈ ns, Proper n) :
    fs.fromRoot p = ⟨.root, fs.here.take (fs.here.length - k) ++ ns⟩ := by
  have hclimb (k : ℕ) (r : List FileName) :
      (List.replicate k dotDot).foldl Path.climb r = r.drop k := by
    induction k generalizing r with
    | zero => rfl
    | succ k ih =>
      rw [List.replicate_succ, List.foldl_cons, ih, Path.climb, if_pos rfl, List.drop_tail]
  have hhere := Path.foldl_climb (fun n hn => (fs.here_plain n hn).proper) []
  have hjoin : Path.join ⟨.root, fs.here⟩ p = ⟨.root, fs.here ++ p.names⟩ :=
    if_neg (by simp [Path.isAbsolute, ha])
  rw [fromRoot, hjoin, Path.collapsed, hp, List.foldl_append, List.foldl_append, hhere, hclimb,
    Path.foldl_climb hns, List.append_nil, List.drop_reverse]
  simp

theorem fromRoot_child (ha : p.anchor = .current) (hn : Proper n) :
    fs.fromRoot (p.child n) = (fs.fromRoot p).child n := by
  have hjoin (q : Path) (hq : q.anchor = .current) :
      Path.join ⟨.root, fs.here⟩ q = ⟨.root, fs.here ++ q.names⟩ :=
    if_neg (by simp [Path.isAbsolute, hq])
  rw [fromRoot, fromRoot, hjoin p ha, hjoin (p.child n) ha, ← Path.collapsed_child hn]
  simp [Path.child]

theorem directory_take_here (fs : FileSystem) (j : ℕ) :
    fs.node? (fs.here.take j) = some .directory := by
  by_cases he : fs.here.take j = fs.here
  · rw [he]
    exact fs.here_directory
  · exact Folder.directory_above (fs.here.take_prefix j) fs.here_directory he

theorem descent_take_here (fs : FileSystem) (j : ℕ) :
    descent [] (fs.here.take j) = fs.here.take j :=
  descent_plain (fun n hn => fs.here_plain n (List.mem_of_mem_take hn)) []

theorem walks_past_here {j : ℕ} {ns : List FileName}
    (h : Walks fs.root ending b [] (fs.here.take j ++ ns) x) :
    Walks fs.root ending b (fs.here.take j) ns x := by
  have hd := directory_take_here fs j
  rw [← descent_take_here] at hd
  have hw := h.past (fun n hn => (fs.here_plain n (List.mem_of_mem_take hn)).proper) hd
  rwa [descent_take_here] at hw

theorem linkTarget?_take_here (fs : FileSystem) (j : ℕ) :
    fs.linkTarget? ⟨.root, fs.here.take j⟩ = none := by
  by_contra hl
  obtain ⟨t, ht⟩ := Option.ne_none_iff_exists'.mp hl
  obtain ⟨l, hlink⟩ := linkTarget?_eq_some_iff.mp ht
  have hw := (locate_iff.mp hlink).2
  rw [← List.append_nil (Path.names _)] at hw
  have hend := (walks_past_here hw).arrived
  rw [show fs.root.node? (fs.here.take j) = _ from directory_take_here fs j] at hend
  cases hend

theorem workedOff_take_here (fs : FileSystem) (j : ℕ) : WorkedOff fs ⟨.root, fs.here.take j⟩ := by
  induction j with
  | zero => exact .root
  | succ j ih =>
    by_cases hj : j < fs.here.length
    · have htake := List.take_succ_eq_append_getElem hj
      have hlink := linkTarget?_take_here fs (j + 1)
      rw [htake] at hlink ⊢
      exact .child ih (fs.here_plain _ (List.getElem_mem hj)).proper hlink
    · rw [List.take_of_length_le (by omega)] at ih ⊢
      exact ih

/-- A look-up from the root passes the current directory, or a directory above it, where the look-up
from there starts. -/
theorem locate_of_fromRoot {k : ℕ} {ns : List FileName} (ha : p.anchor = .current)
    (hp : p.names = List.replicate k dotDot ++ ns) (hns : ∀ n ∈ ns, Proper n)
    (hs : ¬ longestPath < p.text.systemLength) (h : fs.locate ending (fs.fromRoot p) = .ok x) :
    fs.locate ending p = .ok x := by
  have hw := (locate_iff.mp h).2
  rw [names_fromRoot ha hp hns] at hw
  have hclimb := (walks_past_here hw).climbs k fs.here_directory
  rw [← hp] at hclimb
  refine locate_iff.mpr ⟨hs, ?_⟩
  rwa [startOf, if_neg (by simp [Path.isAbsolute, ha])]

/-- What has been worked off from the current directory is worked off from the root, unless the
system did not take it for its length. -/
theorem WorkedOff.fromRoot (h : WorkedOff fs p) (ha : p.anchor = .current)
    (hs : ¬ longestPath < p.text.systemLength) : WorkedOff fs (fs.fromRoot p) := by
  induction h with
  | root => cases ha
  | above k =>
    have hnames : List.replicate k dotDot = List.replicate k dotDot ++ [] := by simp
    rw [names_fromRoot rfl hnames (by simp), List.append_nil]
    exact workedOff_take_here fs _
  | @child p n hp hn hl ih =>
    have hroot : fs.fromRoot (p.child n) = (fs.fromRoot p).child n := fromRoot_child ha hn
    have hlink : fs.linkTarget? (fs.fromRoot (p.child n)) = none := by
      by_contra hl'
      obtain ⟨t, ht⟩ := Option.ne_none_iff_exists'.mp hl'
      obtain ⟨l, hw⟩ := linkTarget?_eq_some_iff.mp ht
      obtain ⟨k, ns, hnames, hns⟩ := (WorkedOff.child hp hn hl).names_eq ha
      have hw' := locate_of_fromRoot ha hnames hns hs hw
      rw [linkTarget?_eq_some_iff.mpr ⟨l, hw'⟩] at hl
      cases hl
    rw [hroot] at hlink ⊢
    exact .child (ih ha (short_of_mem_ancestry (mem_ancestry_child p n) hs)) hn hlink

end FromRoot

theorem WorkedOff.tidy (h : WorkedOff fs p) : p.Tidy := by
  induction h with
  | root => exact fun n hn => by cases hn
  | above k =>
    intro n hn
    rw [List.eq_of_mem_replicate hn]
    decide
  | child _ hn _ ih => exact ih.child ⟨hn.ne_nil, hn.ne_dot, hn.no_slash⟩

theorem tidy_of_resolve (h : fs.resolve p = .ok q) : q.Tidy := by
  obtain ⟨t, ht, rfl, -, -⟩ := resolve_eq_ok_iff.mp h
  cases t with
  | looped t => exact (Path.tidy_ofText _).collapsed
  | reached r seen =>
    have hhere : (⟨.root, fs.here⟩ : Path).Tidy :=
      Path.tidy_of_proper fun n hn => (fs.here_plain n hn).proper
    exact (hhere.join (workedOff_trace ht).tidy).collapsed

theorem resolve_of_overlong {k : ℕ} (hn : Proper n)
    (hlong : longestPath < (Path.text ⟨.current, List.replicate k dotDot ++ [n]⟩).systemLength)
    (hq : q = ⟨.root, fs.here.take (fs.here.length - k) ++ [n]⟩) (hf : q.fault? = none)
    (hs : fs.stat q ≠ .error .tooManyLinks) :
    fs.resolve ⟨.current, List.replicate k dotDot ++ [n]⟩ = .ok q := by
  have hup : (⟨.current, List.replicate k dotDot⟩ : Path).fault? = none := by
    refine Path.fault?_eq_none_iff.mpr fun m hm => ?_
    rw [List.eq_of_mem_replicate hm]
    decide
  have hfault : Path.fault? ⟨.current, List.replicate k dotDot ++ [n]⟩ = none :=
    Path.fault?_child hup (Path.fault?_eq_none_iff.mp hf n (by simp [hq]))
  have hlink : fs.linkTarget? ⟨.current, List.replicate k dotDot ++ [n]⟩ = none := by
    rw [linkTarget?, locate, if_pos hlong]
  have hw : WorkedOff fs ⟨.current, List.replicate k dotDot ++ [n]⟩ := .child (.above k) hn hlink
  have htrace : fs.trace ⟨.current, List.replicate k dotDot ++ [n]⟩ =
      .ok (.reached ⟨.current, List.replicate k dotDot ++ [n]⟩ []) := by
    rw [trace_eq hw.tidy]
    refine (traceWith_climbs 0 k).trans ?_
    rw [Nat.zero_add]
    exact traceWith_pass hn hfault hlink
  have hroot : fs.fromRoot ⟨.current, List.replicate k dotDot ++ [n]⟩ = q :=
    (names_fromRoot rfl rfl (List.forall_mem_singleton.mpr hn)).trans hq.symm
  exact resolve_eq_ok_iff.mpr ⟨_, htrace, hroot, hf, hs⟩

/-- No link loop is met on the path, and what is left of it without links, if it still starts at the
current directory, is not too long for the system. -/
def Regular (fs : FileSystem) (p : Path) : Prop :=
  ∃ q seen, fs.trace p = .ok (.reached q seen) ∧
    (q.isAbsolute = false → ¬ longestPath < q.text.systemLength)

theorem workedOff_of_resolve (h : fs.resolve p = .ok q) (hr : fs.Regular p) :
    q.isAbsolute = true ∧ WorkedOff fs q := by
  obtain ⟨t, ht, rfl, -, -⟩ := resolve_eq_ok_iff.mp h
  obtain ⟨q, seen, hq, hs⟩ := hr
  cases ht.symm.trans hq
  have hw := workedOff_trace hq
  rcases hw.anchor with ha | ha
  · have habs : q.isAbsolute = true := by simp [Path.isAbsolute, ha]
    rw [Trace.path, fromRoot_of_absolute habs (hw.proper habs)]
    exact ⟨habs, hw⟩
  · have hroot := hw.fromRoot ha (hs (by simp [Path.isAbsolute, ha]))
    obtain ⟨k, ns, hn, hns⟩ := hw.names_eq ha
    refine ⟨?_, hroot⟩
    rw [Trace.path, names_fromRoot ha hn hns]
    rfl

end ParserRelay.FileSystem
