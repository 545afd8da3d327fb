import ParserRelay.Proofs.FileSystem.Growth
import ParserRelay.Proofs.Text.Join
/-!
# What was written is there

A file that was written is read back as it was written, through links and whatever stood there
before. Directories that were made are there, and so are all that a path to a directory names.
-/
namespace ParserRelay.FileSystem
open ParserRelay.Path (slash dot)

variable {root : Folder} {ending : Ending} {b : ℕ} {l : Location} {names ms : List FileName}
  {p : Place} {fs fs' : FileSystem} {q r : Path}

/-- A walk that does not end at a link ends at the same place if links are followed to the last. -/
theorem Walks.followed (h : Walks root ending b l names p) (hp : ∀ t, p.node ≠ some (.link t)) :
    Walks root .followed b l names p := by
  have loosen {l : Location} {n : FileName} {r : List FileName} (hu : LooksUp root ending l n r) :
      LooksUp root .followed l n r := { hu with accepted := by simp }
  induction h with
  | arrive b l => exact .arrive b l
  | stay hd hs _ ih => exact .stay hd hs (ih hp)
  | climb hd _ ih => exact .climb hd (ih hp)
  | free hu hn => exact .free (loosen hu) hn
  | @halt b l n t hu hn he => exact absurd rfl (hp t)
  | follow hu hn hr _ ih => exact .follow (loosen hu) hn (by simp) (ih hp)
  | enter hu hn hx _ ih => exact .enter (loosen hu) hn hx (ih hp)

theorem Walks.not_link (h : Walks root ending b l names p) (he : ending ≠ .itself)
    (hl : ∀ t, root.node? l ≠ some (.link t)) : ∀ t, p.node ≠ some (.link t) := by
  have not_link {l : Location} (hd : root.node? l = some .directory) :
      ∀ t, root.node? l ≠ some (.link t) := by
    intro t ht
    rw [hd] at ht
    cases ht
  induction h with
  | arrive b l => exact hl
  | stay hd _ _ ih => exact ih (not_link hd)
  | climb hd _ ih => exact ih (not_link (node?_dropLast hd))
  | free hu hn => simp
  | halt _ _ hi => exact absurd hi he
  | follow hu _ _ _ ih => exact ih (not_link (node?_behind hu.directory _))
  | enter hu hn hx _ ih => exact ih (by simpa [hn] using hx)

theorem Walks.prefix_directory (h : Walks root .followed b l names p)
    (hp : p.node = some .directory) (hm : ms <+: names) :
    ∃ m, Walks root .followed b l ms ⟨m, some .directory⟩ := by
  obtain ⟨rest, rfl⟩ := hm
  cases rest with
  | nil =>
    rw [List.append_nil] at h
    exact ⟨p.location, hp ▸ h⟩
  | cons n r =>
    obtain ⟨m, hm, -⟩ := h.split
    exact ⟨m, hm⟩

theorem stat_of_locate {x : Node} (h : fs.locate ending q = .ok ⟨l, some x⟩)
    (hx : ∀ t, x ≠ .link t) : fs.stat q = .ok x := by
  obtain ⟨hs, hw⟩ := locate_iff.mp h
  have hf : fs.locate .followed q = .ok ⟨l, some x⟩ :=
    locate_iff.mpr ⟨hs, hw.followed (fun t ht => hx t (Option.some.inj ht))⟩
  rw [stat, hf]

theorem locate_of_stat {x : Node} (h : fs.stat q = .ok x) :
    ∃ l, fs.locate .followed q = .ok ⟨l, some x⟩ := by
  unfold stat at h
  split at h
  · cases h
  · cases h
  · rename_i l y hw
    cases h
    exact ⟨l, hw⟩

theorem not_link_of_locate {x : Option Node} (h : fs.locate ending q = .ok ⟨l, x⟩)
    (he : ending ≠ .itself) : ∀ t, x ≠ some (.link t) := by
  refine (locate_iff.mp h).2.not_link he ?_
  intro t ht
  rw [show fs.root.node? (fs.startOf q) = some .directory from node?_startOf fs q] at ht
  cases ht

theorem changed_write {content : Bytes} (h : (fs.write q content).failure = none) :
    ∃ l, ChangedAt fs (fs.write q content).after l ∧
      (fs.write q content).after.locate .written q = .ok ⟨l, some (.file content)⟩ := by
  obtain ⟨-, l, x, hw, hd, ha⟩ := write_cases h
  have hx : Replaceable x := by
    rintro y rfl
    cases y with
    | file c => rfl
    | link t => exact absurd rfl (not_link_of_locate hw (by simp) t)
    | directory => exact absurd rfl hd
  obtain ⟨hput, hnew⟩ := put_at hw hx (Entry.childless_file content)
  rw [ha]
  exact ⟨l, hput, hput.locate hw hnew (fun t => by simp)⟩

theorem read?_write {content : Bytes} (h : (fs.write q content).failure = none) :
    (fs.write q content).after.read? q = some content := by
  obtain ⟨l, -, hw⟩ := changed_write h
  rw [read?, stat_of_locate hw (fun t => by simp)]

/-- What was written can be taken away again: the file itself, or the link that led to it. -/
theorem discard_of_write {content : Bytes} (h : (fs.write q content).failure = none) :
    ((fs.write q content).after.discard q).failure = none := by
  obtain ⟨hf, -⟩ := write_cases h
  obtain ⟨l, -, hw⟩ := changed_write h
  obtain ⟨hs, hwalks⟩ := locate_iff.mp hw
  rcases hwalks.itself with hi | ⟨m, t, hi⟩
  · have hl := locate_iff.mpr ⟨hs, hi⟩
    simp only [discard, ifUsable, hf, hl]
  · have hl := locate_iff.mpr ⟨hs, hi⟩
    simp only [discard, ifUsable, hf, hl]

theorem stat_of_holds {test : Node → Bool} (h : fs.holds test q = .ok true) :
    ∃ n, fs.stat q = .ok n ∧ test n := by
  unfold holds at h
  split at h
  · cases h
  split at h
  · rename_i n hn
    exact ⟨n, hn, Except.ok.inj h⟩
  · cases h
  · cases h

theorem stat_of_isDirectory (h : fs.isDirectory q = .ok true) : fs.stat q = .ok .directory := by
  obtain ⟨n, hn, hd⟩ := stat_of_holds h
  rw [hn, of_decide_eq_true hd]

theorem stat_of_isFile (h : fs.isFile q = .ok true) : ∃ content, fs.stat q = .ok (.file content) := by
  obtain ⟨n, hn, hf⟩ := stat_of_holds h
  cases n with
  | file content => exact ⟨content, hn⟩
  | link | directory => cases hf

theorem isFile_cases (hf : q.fault? = none) :
    fs.isFile q = .ok true ∧ (∃ content, fs.stat q = .ok (.file content)) ∨
    fs.isFile q = .ok false ∧ (∀ content, fs.stat q ≠ .ok (.file content)) ∧
      fs.stat q ≠ .error .nameTooLong ∨
    fs.isFile q = .error (.system .nameTooLong q.text) ∧ fs.stat q = .error .nameTooLong := by
  rw [isFile, holds, if_neg (by simp [hf])]
  cases hs : fs.stat q with
  | ok x => cases x <;> simp [isFileNode]
  | error e => cases e <;> simp

theorem isFile_of_stat {content : Bytes} (hf : q.fault? = none)
    (h : fs.stat q = .ok (.file content)) : fs.isFile q = .ok true := by
  rcases fs.isFile_cases hf with ⟨ha, -⟩ | ⟨-, hno, -⟩ | ⟨-, hlong⟩
  · exact ha
  · exact absurd h (hno content)
  · rw [h] at hlong
    cases hlong

theorem fault?_of_isFile (h : fs.isFile q = .ok true) : q.fault? = none := by
  unfold isFile holds at h
  split at h
  · cases h
  · rename_i hf
    simpa using hf

theorem stat_makeDirectory (h : (fs.makeDirectory q).failure = none) :
    (fs.makeDirectory q).after.stat q = .ok .directory := by
  unfold makeDirectory ifUsable at h ⊢
  split at h
  · cases h
  split at h
  · cases h
  · cases h
  · rename_i l hw
    obtain ⟨hc, hnew⟩ := put_at hw (fun y hy => by cases hy) Entry.childless_empty
    exact stat_of_locate (hc.locate hw hnew (fun t => by simp)) (fun t => by simp)

theorem stat_ensureDirectory (h : (fs.ensureDirectory q).failure = none) :
    (fs.ensureDirectory q).after.stat q = .ok .directory := by
  unfold ensureDirectory at h ⊢
  simp only at h ⊢
  split at h
  · rename_i hm
    exact stat_makeDirectory hm
  · rename_i hm
    rw [hm] at h
    cases h
  · rename_i hm
    rw [hm] at h
    cases h
  · unfold unlessPresent at h ⊢
    split at h
    · rename_i hd
      exact stat_of_isDirectory hd
    · cases h
    · cases h

theorem stat_ensureDirectories (n : ℕ) (h : (ensureDirectories n fs q).failure = none) :
    (ensureDirectories n fs q).after.stat q = .ok .directory := by
  cases n with
  | zero => exact stat_ensureDirectory h
  | succ n =>
    unfold ensureDirectories at h ⊢
    simp only at h ⊢
    split at h
    · split at h
      · cases h
      · exact stat_ensureDirectory h
    · exact stat_ensureDirectory h

theorem stat_makeDirectories (h : (fs.makeDirectories q).failure = none) :
    (fs.makeDirectories q).after.stat q = .ok .directory := stat_ensureDirectories _ h

theorem stat_keeps (hh : fs'.here = fs.here) (hk : KeepsPassages fs.root fs'.root)
    (h : fs.stat q = .ok .directory) : fs'.stat q = .ok .directory := by
  obtain ⟨l, hw⟩ := locate_of_stat h
  have hd : fs'.node? l = some .directory := hk l _ (sound_of_locate hw).node.symm rfl
  have hw' := locate_keeps hh hk hw (fun t ht => by rw [hd] at ht; exact ht)
  rw [hd] at hw'
  exact stat_of_locate hw' (fun t => by simp)

theorem systemLength_mono {t u : WideText} (h : t <+: u) :
    t.systemLength ≤ u.systemLength := by
  obtain ⟨r, rfl⟩ := h
  rw [WideText.systemLength, WideText.systemLength, WideText.toSystem_append, List.length_append]
  exact Nat.le_add_right _ _

theorem short_of_mem_ancestry (hr : r ∈ q.ancestry) (h : ¬ longestPath < q.text.systemLength) :
    ¬ longestPath < r.text.systemLength := by
  obtain ⟨ha, hn⟩ := mem_ancestry.mp hr
  have hp : Path.anchorText r.anchor ++ Text.joinWith [slash] r.names <+:
      Path.anchorText q.anchor ++ Text.joinWith [slash] q.names := by
    rw [ha]
    exact List.prefix_append_right_inj _ |>.mpr (Text.joinWith_mono _ hn)
  unfold Path.text at h ⊢
  simp only at h ⊢
  split
  · decide
  · rename_i hne
    rw [if_neg] at h
    · exact fun hl => h (Nat.lt_of_lt_of_le hl (systemLength_mono hp))
    · intro he
      rw [List.isEmpty_iff] at he hne
      rw [he] at hp
      exact hne (List.prefix_nil.mp hp)

theorem stat_of_mem_ancestry (h : fs.stat q = .ok .directory) (hr : r ∈ q.ancestry) :
    fs.stat r = .ok .directory := by
  obtain ⟨l, hl⟩ := locate_of_stat h
  obtain ⟨hs, hw⟩ := locate_iff.mp hl
  obtain ⟨ha, hn⟩ := mem_ancestry.mp hr
  obtain ⟨m, hm⟩ := hw.prefix_directory rfl hn
  have hstart : fs.startOf q = fs.startOf r := by
    rw [startOf, startOf, Path.isAbsolute, Path.isAbsolute, ha]
  rw [hstart] at hm
  have hr' : fs.locate .followed r = .ok ⟨m, some .directory⟩ :=
    locate_iff.mpr ⟨short_of_mem_ancestry hr hs, hm⟩
  rw [stat, hr']

theorem stat_of_child {n : FileName} {x : Node} (h : fs.stat (q.child n) = .ok x) :
    fs.stat q = .ok .directory := by
  obtain ⟨l, hl⟩ := locate_of_stat h
  obtain ⟨hs, hw⟩ := locate_iff.mp hl
  obtain ⟨m, hm, -⟩ := hw.split
  have hq : fs.locate .followed q = .ok ⟨m, some .directory⟩ :=
    locate_iff.mpr ⟨short_of_mem_ancestry (mem_ancestry_child q n) hs, hm⟩
  rw [stat, hq]

end ParserRelay.FileSystem
