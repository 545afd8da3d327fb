import ParserRelay.Proofs.FileSystem.Contents
import ParserRelay.Proofs.Path.Faults
/-!
# What the system refuses

In a directory a look-up that follows no link is refused only for a name or a path that is too long.
So what keeps a file from being written there keeps it from being removed for the same reason, if at
all. And directories that cannot be made leave a path along which nothing is found.
-/
namespace ParserRelay.FileSystem
open ParserRelay.Path (dot dotDot)

variable {root : Folder} {ending : Ending} {b : ℕ} {l m : Location} {n : FileName}
  {ns r : List FileName} {x : Place} {fs : FileSystem} {p q : Path} {e : FileError}

theorem walk_refused (hd : root.node? l = some .directory) (hs : ¬ (n = dot ∨ n = []))
    (hc : n ≠ dotDot) : walk root .written b l [n, []] = .error .isDirectory := by
  cases b <;> simp [walk, walkWith, hd, hs, hc]

theorem walk_overlong (hd : root.node? l = some .directory) (hs : ¬ (n = dot ∨ n = []))
    (hc : n ≠ dotDot) (hl : longestName < n.systemLength) :
    walk root ending b l [n] = .error .nameTooLong := by
  cases b <;> simp [walk, walkWith, hd, hs, hc, hl]

theorem walk_beyond (h : Walks root .followed b l ns ⟨m, some .directory⟩) : ∃ c, ∀ ending n,
    (ending = .written → n ≠ []) → walk root ending b l (ns ++ [n]) = walk root ending c m [n] := by
  have further {ending : Ending} {l : Location} {k n : FileName} {r : List FileName}
      (hu : LooksUp root .followed l k r) (hn : ending = .written → n ≠ []) :
      LooksUp root ending l k (r ++ [n]) := by
    refine { hu with accepted := ?_ }
    rintro ⟨he, hr⟩
    rcases List.append_eq_singleton_iff.mp hr with ⟨-, hn'⟩ | ⟨-, hn'⟩
    · exact hn he (by simpa using hn')
    · simp at hn'
  generalize hx : (⟨m, some .directory⟩ : Place) = x at h
  induction h with
  | arrive b l =>
    obtain rfl : m = l := congrArg Place.location hx
    exact ⟨b, fun ending n _ => rfl⟩
  | stay hd hs _ ih =>
    obtain ⟨c, hc⟩ := ih hx
    exact ⟨c, fun ending n hn => (walk_stay hd hs).trans (hc ending n hn)⟩
  | climb hd _ ih =>
    obtain ⟨c, hc⟩ := ih hx
    exact ⟨c, fun ending n hn => (walk_climb hd).trans (hc ending n hn)⟩
  | free _ _ => cases hx
  | halt _ _ he => cases he
  | @follow b l k r t x hu ht _ _ ih =>
    obtain ⟨c, hc⟩ := ih hx
    refine ⟨c, fun ending n hn => ?_⟩
    have hstep := walk_follow (b := b) (further hu hn) ht (by simp)
    rw [List.cons_append, hstep, ← List.append_assoc]
    exact hc ending n hn
  | enter hu hk hne _ ih =>
    obtain ⟨c, hc⟩ := ih hx
    exact ⟨c, fun ending n hn => (walk_enter (further hu hn) hk hne).trans (hc ending n hn)⟩

theorem walk_name (hd : root.node? m = some .directory) (n : FileName) :
    (∀ b, ∃ x, walk root .itself b m [n] = .ok x) ∨
      n ≠ [] ∧ ∀ ending b, walk root ending b m [n] = .error .nameTooLong := by
  by_cases hs : n = dot ∨ n = []
  · exact .inl fun b => ⟨_, (walk_stay hd hs).trans walk_nil⟩
  by_cases hc : n = dotDot
  · subst hc
    exact .inl fun b => ⟨_, (walk_climb hd).trans walk_nil⟩
  by_cases hl : longestName < n.systemLength
  · exact .inr ⟨fun hn => hs (.inr hn), fun ending b => walk_overlong hd hs hc hl⟩
  · have hu : LooksUp root .itself m n [] := ⟨hd, hs, hc, by simp, hl⟩
    exact .inl fun b => ⟨_, walk_of_walks (Walks.last hu fun _ _ => rfl)⟩

/-- Where a look-up ends at a directory, one for writing ends there too or is refused for that. -/
theorem Walks.for_writing (h : Walks root .itself b l ns x) (hx : x.node = some .directory) :
    walk root .written b l ns = .ok x ∨ walk root .written b l ns = .error .isDirectory := by
  have refused {l : Location} {n : FileName} {r : List FileName} (hu : LooksUp root .itself l n r) :
      (∀ b, walk root .written b l (n :: r) = .error .isDirectory) ∨
        LooksUp root .written l n r := by
    by_cases hr : r = [[]]
    · subst hr
      exact .inl fun b => walk_refused hu.directory hu.stays hu.climbs
    · exact .inr { hu with accepted := fun h => hr h.2 }
  induction h with
  | arrive b l => exact .inl walk_nil
  | stay hd hs _ ih =>
    rw [walk_stay hd hs]
    exact ih hx
  | climb hd _ ih =>
    rw [walk_climb hd]
    exact ih hx
  | free _ _ => cases hx
  | halt _ _ _ => cases hx
  | @follow b l n r t x hu ht hr _ ih =>
    rcases refused hu with he | hu
    · exact .inr (he (b + 1))
    · rw [walk_follow hu ht (by simp)]
      exact ih hx
  | enter hu hn hne _ ih =>
    rcases refused hu with he | hu
    · exact .inr (he _)
    · rw [walk_enter hu hn hne]
      exact ih hx

theorem locate_of_short (h : ¬ longestPath < p.text.systemLength) :
    fs.locate ending p = walk fs.root ending linkBudget (fs.startOf p) p.names := if_neg h

theorem locate_in_directory (h : fs.stat p.parent = .ok .directory) :
    (∃ x, fs.locate .itself p = .ok x) ∨
      fs.locate .itself p = .error .nameTooLong ∧ fs.locate .written p = .error .nameTooLong := by
  by_cases hlong : longestPath < p.text.systemLength
  · exact .inr ⟨if_pos hlong, if_pos hlong⟩
  rw [locate_of_short hlong, locate_of_short hlong]
  rcases List.eq_nil_or_concat' p.names with hp | ⟨ns, n, hp⟩
  · rw [hp]
    exact .inl ⟨_, walk_nil⟩
  · obtain ⟨m, hm⟩ := locate_of_stat h
    have hns : p.parent.names = ns := by simp [Path.parent, hp]
    have hw := (locate_iff.mp hm).2
    have hd : fs.root.node? m = some .directory := (sound_of_locate hm).node.symm
    rw [hns] at hw
    obtain ⟨c, hc⟩ := walk_beyond hw
    rw [hp]
    rcases walk_name hd n with hok | ⟨hn, herror⟩
    · obtain ⟨x, hx⟩ := hok c
      exact .inl ⟨x, (hc .itself n (by simp)).trans hx⟩
    · exact .inr ⟨(hc .itself n (by simp)).trans (herror _ c),
        (hc .written n fun _ => hn).trans (herror _ c)⟩

theorem stat_parent_of_locate (h : fs.locate ending p = .ok x) :
    fs.stat p.parent = .ok .directory := by
  obtain ⟨hs, hw⟩ := locate_iff.mp h
  have hshort := short_of_mem_ancestry (parent_mem_ancestry p) hs
  rcases List.eq_nil_or_concat' p.names with hp | ⟨ns, n, hp⟩
  · have hparent : p.parent.names = [] := by simp [Path.parent, hp]
    have hstart : Walks fs.root .followed linkBudget (fs.startOf p.parent) []
        ⟨fs.startOf p.parent, fs.root.node? (fs.startOf p.parent)⟩ := .arrive _ _
    rw [show fs.root.node? (fs.startOf p.parent) = _ from node?_startOf fs p.parent, ← hparent] at hstart
    exact stat_of_locate (locate_iff.mpr ⟨hshort, hstart⟩) (by simp)
  · rw [hp] at hw
    obtain ⟨m, hm, -⟩ := hw.split
    have hparent : p.parent.names = ns := by simp [Path.parent, hp]
    rw [← hparent] at hm
    exact stat_of_locate (locate_iff.mpr ⟨hshort, hm⟩) (by simp)

/-- What keeps a file from being written to a directory that is there does not show twice: taking the
file away is not refused, or is refused for the same. -/
theorem discard_of_failed_write {content : Bytes} (hparent : fs.stat p.parent = .ok .directory)
    (h : (fs.write p content).failure = some e) :
    (fs.discard p).failure = none ∨ (fs.discard p).failure = some e := by
  unfold write ifUsable at h
  unfold discard ifUsable
  split at h
  · exact .inr h
  rcases locate_in_directory hparent with ⟨⟨m, y⟩, hx⟩ | ⟨hitself, hwritten⟩
  · rw [hx]
    rcases y with _ | (content | target | _)
    · exact .inl rfl
    · exact .inl rfl
    · exact .inl rfl
    · right
      obtain ⟨hs, hw⟩ := locate_iff.mp hx
      rcases hw.for_writing rfl with hok | herror
      · rw [locate_of_short hs, hok] at h
        exact h
      · rw [locate_of_short hs, herror] at h
        exact h
  · rw [hitself]
    rw [hwritten] at h
    exact .inr h

theorem exists_of_stat (h : fs.stat q = .ok .directory) :
    ∃ l y, fs.locate .itself q = .ok ⟨l, some y⟩ := by
  obtain ⟨l, hl⟩ := locate_of_stat h
  obtain ⟨hs, hw⟩ := locate_iff.mp hl
  rcases hw.itself with hi | ⟨m, t, hi⟩
  · exact ⟨l, _, locate_iff.mpr ⟨hs, hi⟩⟩
  · exact ⟨m, _, locate_iff.mpr ⟨hs, hi⟩⟩

theorem isDirectory_of_stat (hf : q.fault? = none) (h : fs.stat q = .ok .directory) :
    fs.isDirectory q = .ok true := by
  rw [isDirectory, holds, hf, h]
  rfl

theorem ensureDirectory_of_stat (hf : q.fault? = none)
    (h : (fs.ensureDirectory q).after.stat q = .ok .directory) :
    (fs.ensureDirectory q).failure = none := by
  rw [after_ensureDirectory] at h
  cases hl : fs.locate .itself q with
  | error e =>
    have hmake : fs.makeDirectory q = .failed fs e q := by simp [makeDirectory, ifUsable, hf, hl]
    rw [hmake] at h
    have hd : fs.stat q = .ok .directory := h
    obtain ⟨l, y, hy⟩ := exists_of_stat hd
    cases hl.symm.trans hy
  | ok x =>
    obtain ⟨l, y⟩ := x
    cases y with
    | none =>
      have hmake : (fs.makeDirectory q).failure = none := by simp [makeDirectory, ifUsable, hf, hl]
      simp [ensureDirectory, hmake]
    | some y =>
      have hmake : fs.makeDirectory q = .failed fs .exists q := by
        simp [makeDirectory, ifUsable, hf, hl]
      rw [hmake] at h
      have hd : fs.isDirectory q = .ok true := isDirectory_of_stat hf h
      simp [ensureDirectory, hmake, Change.failed, unlessPresent, hd]

theorem ensureDirectories_of_stat (k : ℕ) (hf : q.fault? = none)
    (h : (ensureDirectories k fs q).after.stat q = .ok .directory) :
    (ensureDirectories k fs q).failure = none := by
  induction k generalizing fs q with
  | zero => exact ensureDirectory_of_stat hf h
  | succ k ih =>
    unfold ensureDirectories at h ⊢
    simp only at h ⊢
    split at h
    · split at h
      · rename_i e habove
        have hparent := stat_of_mem_ancestry h (parent_mem_ancestry q)
        have hnone := ih (Path.fault?_of_mem_ancestry (parent_mem_ancestry q) hf) hparent
        rw [habove] at hnone
        cases hnone
      · exact ensureDirectory_of_stat hf h
    · exact ensureDirectory_of_stat hf h

theorem makeDirectories_failure_iff (hf : q.fault? = none) :
    (fs.makeDirectories q).failure = none ↔ (fs.makeDirectories q).after.stat q = .ok .directory :=
  ⟨stat_makeDirectories, ensureDirectories_of_stat q.names.length hf⟩

theorem refused_of_failed_directories (hf : p.fault? = none)
    (h : (fs.makeDirectories p.parent).failure = some e) (ending : Ending) :
    ∃ refusal, (fs.makeDirectories p.parent).after.locate ending p = .error refusal := by
  cases hl : (fs.makeDirectories p.parent).after.locate ending p with
  | error refusal => exact ⟨refusal, rfl⟩
  | ok x =>
    have hparent := Path.fault?_of_mem_ancestry (parent_mem_ancestry p) hf
    rw [(makeDirectories_failure_iff hparent).mpr (stat_parent_of_locate hl)] at h
    cases h

theorem after_of_failed_write {fs : FileSystem} (h : (fs.write p content).failure = some e) :
    (fs.write p content).after = fs := by
  unfold write ifUsable at h ⊢
  split
  · rfl
  · rename_i hf
    simp only [hf] at h
    split
    · rfl
    · rfl
    · rename_i hl
      simp [hl] at h

theorem discard_of_fault {fs : FileSystem} {fault : PathFault} (h : p.fault? = some fault) :
    (fs.discard p).failure = some (.unusable fault) := by
  rw [discard, ifUsable, h]

theorem discard_of_refused {fs : FileSystem} {refusal : SystemError} (hf : p.fault? = none)
    (h : fs.locate .itself p = .error refusal) : (fs.discard p).failure =
      if refusal = .noEntry then none else some (.system refusal p.text) := by
  cases refusal <;> simp [discard, ifUsable, hf, h, Change.failed]

end ParserRelay.FileSystem
