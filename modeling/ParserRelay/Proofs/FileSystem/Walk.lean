import ParserRelay.FileSystem.Lookup
import ParserRelay.Proofs.FileSystem.Frame
/-!
# Derivations of walks

A walk is a derivation over the names that it takes. From one derivation follow the view at its end,
its fate in a tree that has other files, what becomes of it where a link at its end is not followed,
and where it stands before a name.
-/
namespace ParserRelay.FileSystem
open ParserRelay.Path (dot dotDot)

structure LooksUp (root : Folder) (ending : Ending) (l : Location) (n : FileName)
    (r : List FileName) : Prop where
  directory : root.node? l = some .directory
  stays : ¬ (n = dot ∨ n = [])
  climbs : n ≠ dotDot
  accepted : ¬ (ending = .written ∧ r = [[]])
  short : ¬ longestName < n.systemLength

def behind (l : Location) (target : WideText) : Location := if startsAtRoot target then [] else l

inductive Walks (root : Folder) (ending : Ending) : Nat → Location → List FileName → Place → Prop
  | arrive (b : Nat) (l : Location) : Walks root ending b l [] ⟨l, root.node? l⟩
  | stay {b : Nat} {l : Location} {n : FileName} {r : List FileName} {p : Place} :
      root.node? l = some .directory → n = dot ∨ n = [] → Walks root ending b l r p →
      Walks root ending b l (n :: r) p
  | climb {b : Nat} {l : Location} {r : List FileName} {p : Place} :
      root.node? l = some .directory → Walks root ending b l.dropLast r p →
      Walks root ending b l (dotDot :: r) p
  | free {b : Nat} {l : Location} {n : FileName} :
      LooksUp root ending l n [] → root.node? (under l n) = none →
      Walks root ending b l [n] ⟨under l n, none⟩
  | halt {b : Nat} {l : Location} {n : FileName} {t : WideText} :
      LooksUp root ending l n [] → root.node? (under l n) = some (.link t) → ending = .itself →
      Walks root ending b l [n] ⟨under l n, some (.link t)⟩
  | follow {b : Nat} {l : Location} {n : FileName} {r : List FileName} {t : WideText} {p : Place} :
      LooksUp root ending l n r → root.node? (under l n) = some (.link t) →
      ¬ (r = [] ∧ ending = .itself) → Walks root ending b (behind l t) (steps t ++ r) p →
      Walks root ending (b + 1) l (n :: r) p
  | enter {b : Nat} {l : Location} {n : FileName} {r : List FileName} {x : Node} {p : Place} :
      LooksUp root ending l n r → root.node? (under l n) = some x → (∀ t, x ≠ .link t) →
      Walks root ending b (under l n) r p → Walks root ending b l (n :: r) p

variable {root root' : Folder} {ending : Ending} {b : Nat} {l : Location} {names : List FileName}
  {p : Place}

theorem dotDot_looks_up : ¬ (dotDot = dot ∨ dotDot = ([] : FileName)) := by decide

theorem walks_of_walkWith (jump : Location → List FileName → Except SystemError Place)
    (hjump : ∀ {l n r t}, LooksUp root ending l n r → root.node? (under l n) = some (.link t) →
      ¬ (r = [] ∧ ending = .itself) → jump (behind l t) (steps t ++ r) = .ok p →
      Walks root ending b l (n :: r) p)
    (h : walkWith jump root ending l names = .ok p) : Walks root ending b l names p := by
  induction names generalizing l with
  | nil =>
    cases h
    exact .arrive b l
  | cons n r ih =>
    unfold walkWith at h
    split at h
    · cases h
    rename_i hd
    have hd : root.node? l = some .directory := by simpa using hd
    split at h
    · rename_i hs
      exact .stay hd hs (ih h)
    rename_i hs
    split at h
    · rename_i hc
      subst hc
      exact .climb hd (ih h)
    rename_i hc
    split at h
    · cases h
    rename_i ha
    split at h
    · cases h
    rename_i hl
    have hu : LooksUp root ending l n r := ⟨hd, hs, hc, ha, hl⟩
    split at h
    · rename_i hn
      split at h
      · rename_i hr
        obtain rfl : r = [] := by simpa using hr
        cases h
        exact .free hu hn
      · cases h
    · rename_i t hn
      split at h
      · rename_i hr
        obtain ⟨rfl, he⟩ : r = [] ∧ ending = .itself := by simpa using hr
        cases h
        exact .halt hu hn he
      · rename_i hr
        exact hjump hu hn (by simpa using hr) h
    · rename_i x hx hn
      exact .enter hu hn hx (ih h)

theorem walks_of_walk (h : walk root ending b l names = .ok p) : Walks root ending b l names p := by
  induction b generalizing l names with
  | zero => exact walks_of_walkWith _ (fun _ _ _ hj => by cases hj) h
  | succ b ih => exact walks_of_walkWith _ (fun hu hn hr hj => .follow hu hn hr (ih hj)) h

theorem walk_nil : walk root ending b l [] = .ok ⟨l, root.node? l⟩ := by
  cases b <;> rfl

theorem walk_stay {n : FileName} {r : List FileName} (hd : root.node? l = some .directory)
    (hs : n = dot ∨ n = []) : walk root ending b l (n :: r) = walk root ending b l r := by
  cases b <;> simp [walk, walkWith, hd, hs]

theorem walk_climb {r : List FileName} (hd : root.node? l = some .directory) :
    walk root ending b l (dotDot :: r) = walk root ending b l.dropLast r := by
  cases b <;> simp [walk, walkWith, hd, dotDot_looks_up]

theorem walk_free {n : FileName} (h : LooksUp root ending l n [])
    (hn : root.node? (under l n) = none) :
    walk root ending b l [n] = .ok ⟨under l n, none⟩ := by
  cases b <;> simp [walk, walkWith, h.directory, h.stays, h.climbs, h.short, hn]

theorem walk_halt {n : FileName} {t : WideText} (h : LooksUp root ending l n [])
    (hn : root.node? (under l n) = some (.link t)) (he : ending = .itself) :
    walk root ending b l [n] = .ok ⟨under l n, some (.link t)⟩ := by
  cases b <;> simp [walk, walkWith, h.directory, h.stays, h.climbs, h.short, hn, he]

theorem walk_follow {n : FileName} {r : List FileName} {t : WideText}
    (h : LooksUp root ending l n r)
    (hn : root.node? (under l n) = some (.link t)) (hr : ¬ (r = [] ∧ ending = .itself)) :
    walk root ending (b + 1) l (n :: r) = walk root ending b (behind l t) (steps t ++ r) := by
  have hr' : (r.isEmpty && decide (ending = .itself)) = false := by
    simpa using hr
  simp only [walk, walkWith, h.directory, h.stays, h.climbs, h.accepted, h.short, hn, hr', behind]
  simp

theorem walk_enter {n : FileName} {r : List FileName} {x : Node} (h : LooksUp root ending l n r)
    (hn : root.node? (under l n) = some x) (hx : ∀ t, x ≠ .link t) :
    walk root ending b l (n :: r) = walk root ending b (under l n) r := by
  have hstep (jump : Location → List FileName → Except SystemError Place) :
      walkWith jump root ending l (n :: r) = walkWith jump root ending (under l n) r := by
    cases x with
    | link t => exact absurd rfl (hx t)
    | file c =>
      rw [walkWith]
      simp [h.directory, h.stays, h.climbs, h.accepted, h.short, hn]
    | directory =>
      rw [walkWith]
      simp [h.directory, h.stays, h.climbs, h.accepted, h.short, hn]
  cases b <;> exact hstep _

theorem walk_of_walks (h : Walks root ending b l names p) : walk root ending b l names = .ok p := by
  induction h with
  | arrive b l => exact walk_nil
  | stay hd hs _ ih => rw [walk_stay hd hs, ih]
  | climb hd _ ih => rw [walk_climb hd, ih]
  | free hu hn => exact walk_free hu hn
  | halt hu hn he => exact walk_halt hu hn he
  | follow hu hn hr _ ih => rw [walk_follow hu hn hr, ih]
  | enter hu hn hx _ ih => rw [walk_enter hu hn hx, ih]

theorem walk_iff_walks : walk root ending b l names = .ok p ↔ Walks root ending b l names p :=
  ⟨walks_of_walk, walk_of_walks⟩

structure Place.Sound (root : Folder) (p : Place) : Prop where
  node : p.node = root.node? p.location
  free : p.node = none → ∃ k n, p.location = k ++ [n] ∧ root.node? k = some .directory

theorem Place.sound_of_some {x : Node} (h : root.node? l = some x) :
    Place.Sound root ⟨l, root.node? l⟩ := by
  constructor
  · rfl
  · intro hn
    rw [h] at hn
    cases hn

theorem Place.Sound.parent (h : p.Sound root) (hd : p.node ≠ some .directory) :
    ∃ k n, p.location = k ++ [n] ∧ root.node? k = some .directory := by
  cases hx : p.node with
  | none => exact h.free hx
  | some x =>
    have hm : root.node? p.location = some x := h.node ▸ hx
    rcases List.eq_nil_or_concat' p.location with he | ⟨k, n, he⟩
    · have hr : p.node = some .directory := by
        rw [h.node, he, Folder.node?_root]
      exact absurd hr hd
    · have hp : k <+: p.location := by
        rw [he]
        exact List.prefix_append k [n]
      have hne : k ≠ p.location := by
        rw [he]
        simp
      exact ⟨k, n, he, Folder.directory_above hp hm hne⟩

theorem node?_dropLast (hd : root.node? l = some .directory) :
    root.node? l.dropLast = some .directory := by
  by_cases he : l.dropLast = l
  · rw [he, hd]
  · exact Folder.directory_above l.dropLast_prefix hd he

theorem node?_behind (hd : root.node? l = some .directory) (t : WideText) :
    root.node? (behind l t) = some .directory := by
  unfold behind
  split
  · exact Folder.node?_root root
  · exact hd

theorem Walks.sound {x : Node} (h : Walks root ending b l names p) (hl : root.node? l = some x) :
    p.Sound root := by
  induction h generalizing x with
  | arrive b l => exact Place.sound_of_some hl
  | stay _ _ _ ih => exact ih hl
  | climb hd _ ih => exact ih (node?_dropLast hd)
  | free hu hn => exact ⟨hn.symm, fun _ => ⟨_, _, rfl, hu.directory⟩⟩
  | halt hu hn _ => exact hn ▸ Place.sound_of_some hn
  | follow hu hn _ _ ih => exact ih (node?_behind hu.directory _)
  | enter _ hn _ _ ih => exact ih hn

theorem Walks.stuck (h : Walks root ending b l names p) (hl : root.node? l ≠ some .directory) :
    names = [] ∧ p = ⟨l, root.node? l⟩ := by
  cases h with
  | arrive b l => exact ⟨rfl, rfl⟩
  | stay hd _ _ => exact absurd hd hl
  | climb hd _ => exact absurd hd hl
  | free hu _ => exact absurd hu.directory hl
  | halt hu _ _ => exact absurd hu.directory hl
  | follow hu _ _ _ => exact absurd hu.directory hl
  | enter hu _ _ _ => exact absurd hu.directory hl

theorem Walks.last {n : FileName} (hu : LooksUp root ending l n [])
    (hl : ∀ t, root.node? (under l n) = some (.link t) → ending = .itself) :
    Walks root ending b l [n] ⟨under l n, root.node? (under l n)⟩ := by
  cases hn : root.node? (under l n) with
  | none => exact .free hu hn
  | some x =>
    cases x with
    | file c => exact hn ▸ .enter hu hn (by simp) (.arrive b (under l n))
    | link t => exact .halt hu hn (hl t hn)
    | directory => exact hn ▸ .enter hu hn (by simp) (.arrive b (under l n))

/-- All that a walk can pass through, directories and links, is still there. -/
def KeepsPassages (root root' : Folder) : Prop :=
  ∀ m x, root.node? m = some x → isFileNode x = false → root'.node? m = some x

theorem LooksUp.keeps {n : FileName} {r : List FileName} (hk : KeepsPassages root root')
    (h : LooksUp root ending l n r) : LooksUp root' ending l n r :=
  { h with directory := hk _ _ h.directory rfl }

/-- A walk leads to the same location where files came or went, unless a link has come to stand
there. -/
theorem Walks.keeps (hk : KeepsPassages root root') (h : Walks root ending b l names p)
    (hl : ∀ t, root'.node? p.location = some (.link t) → p.node = some (.link t)) :
    Walks root' ending b l names ⟨p.location, root'.node? p.location⟩ := by
  induction h with
  | arrive b l => exact .arrive b l
  | stay hd hs _ ih => exact .stay (hk _ _ hd rfl) hs (ih hl)
  | climb hd _ ih => exact .climb (hk _ _ hd rfl) (ih hl)
  | free hu hn =>
    apply Walks.last (hu.keeps hk)
    intro t ht
    cases hl t ht
  | halt hu hn he => exact .last (hu.keeps hk) (fun _ _ => he)
  | follow hu hn hr _ ih => exact .follow (hu.keeps hk) (hk _ _ hn rfl) hr (ih hl)
  | @enter b l n r x p hu hn hx hw ih =>
    cases x with
    | link t => exact absurd rfl (hx t)
    | directory => exact .enter (hu.keeps hk) (hk _ _ hn rfl) hx (ih hl)
    | file c =>
      obtain ⟨rfl, rfl⟩ := hw.stuck (by simp [hn])
      apply Walks.last (hu.keeps hk)
      intro t ht
      have hc := hl t ht
      rw [hn] at hc
      cases hc

theorem Walks.itself (h : Walks root ending b l names p) :
    Walks root .itself b l names p ∨ ∃ m t, Walks root .itself b l names ⟨m, some (.link t)⟩ := by
  have loosen {l : Location} {n : FileName} {r : List FileName} (hu : LooksUp root ending l n r) :
      LooksUp root .itself l n r := { hu with accepted := by simp }
  induction h with
  | arrive b l => exact .inl (.arrive b l)
  | stay hd hs _ ih =>
    rcases ih with hi | ⟨m, t, hi⟩
    · exact .inl (.stay hd hs hi)
    · exact .inr ⟨m, t, .stay hd hs hi⟩
  | climb hd _ ih =>
    rcases ih with hi | ⟨m, t, hi⟩
    · exact .inl (.climb hd hi)
    · exact .inr ⟨m, t, .climb hd hi⟩
  | free hu hn => exact .inl (.free (loosen hu) hn)
  | @halt b l n t hu hn he => exact .inr ⟨_, t, .halt (loosen hu) hn rfl⟩
  | @follow b l n r t p hu hn _ _ ih =>
    by_cases hr : r = []
    · subst hr
      exact .inr ⟨_, t, .halt (loosen hu) hn rfl⟩
    · have hr' : ¬ (r = [] ∧ Ending.itself = .itself) := fun h => hr h.1
      rcases ih with hi | ⟨m, u, hi⟩
      · exact .inl (.follow (loosen hu) hn hr' hi)
      · exact .inr ⟨m, u, .follow (loosen hu) hn hr' hi⟩
  | enter hu hn hx _ ih =>
    rcases ih with hi | ⟨m, t, hi⟩
    · exact .inl (.enter (loosen hu) hn hx hi)
    · exact .inr ⟨m, t, .enter (loosen hu) hn hx hi⟩

theorem Walks.more {b' : Nat} (h : Walks root ending b l names p) (hb : b ≤ b') :
    Walks root ending b' l names p := by
  induction h generalizing b' with
  | arrive b l => exact .arrive b' l
  | stay hd hs _ ih => exact .stay hd hs (ih hb)
  | climb hd _ ih => exact .climb hd (ih hb)
  | free hu hn => exact .free hu hn
  | halt hu hn he => exact .halt hu hn he
  | @follow b l n r t p hu hn hr _ ih =>
    obtain ⟨c, rfl⟩ : ∃ c, b' = c + 1 := ⟨b' - 1, by omega⟩
    exact .follow hu hn hr (ih (by omega))
  | enter hu hn hx _ ih => exact .enter hu hn hx (ih hb)

theorem Walks.split {n : FileName} {ms r : List FileName}
    (h : Walks root ending b l (ms ++ n :: r) p) :
    ∃ m, Walks root .followed b l ms ⟨m, some .directory⟩ ∧
      Walks root ending b m (n :: r) p := by
  have here {b : Nat} {l : Location} (hl : root.node? l = some .directory) :
      Walks root .followed b l [] ⟨l, some .directory⟩ := hl ▸ .arrive b l
  have loosen {l : Location} {n : FileName} {r r' : List FileName}
      (hu : LooksUp root ending l n r) : LooksUp root .followed l n r' :=
    { hu with accepted := by simp }
  generalize hns : ms ++ n :: r = names at h
  induction h generalizing ms with
  | arrive b l => simp at hns
  | @stay b l k s p hd hs hw ih =>
    rcases List.append_eq_cons_iff.mp hns with ⟨rfl, hc⟩ | ⟨ms', rfl, hc⟩
    · exact ⟨l, here hd, hc ▸ .stay hd hs hw⟩
    · obtain ⟨m, hm, hw'⟩ := ih hc.symm
      exact ⟨m, .stay hd hs hm, hw'⟩
  | @climb b l s p hd hw ih =>
    rcases List.append_eq_cons_iff.mp hns with ⟨rfl, hc⟩ | ⟨ms', rfl, hc⟩
    · exact ⟨l, here hd, hc ▸ .climb hd hw⟩
    · obtain ⟨m, hm, hw'⟩ := ih hc.symm
      exact ⟨m, .climb hd hm, hw'⟩
  | @free b l k hu hf =>
    rcases List.append_eq_cons_iff.mp hns with ⟨rfl, hc⟩ | ⟨ms', rfl, hc⟩
    · exact ⟨l, here hu.directory, hc ▸ .free hu hf⟩
    · simp at hc
  | @halt b l k t hu hf hi =>
    rcases List.append_eq_cons_iff.mp hns with ⟨rfl, hc⟩ | ⟨ms', rfl, hc⟩
    · exact ⟨l, here hu.directory, hc ▸ .halt hu hf hi⟩
    · simp at hc
  | @follow b l k s t p hu hl hr hw ih =>
    rcases List.append_eq_cons_iff.mp hns with ⟨rfl, hc⟩ | ⟨ms', rfl, hc⟩
    · exact ⟨l, here hu.directory, hc ▸ .follow hu hl hr hw⟩
    · have htarget : (steps t ++ ms') ++ n :: r = steps t ++ s := by rw [hc, List.append_assoc]
      obtain ⟨m, hm, hw'⟩ := ih htarget
      exact ⟨m, .follow (loosen hu) hl (by simp) hm, hw'.more (Nat.le_succ b)⟩
  | @enter b l k s x p hu hx hne hw ih =>
    rcases List.append_eq_cons_iff.mp hns with ⟨rfl, hc⟩ | ⟨ms', rfl, hc⟩
    · exact ⟨l, here hu.directory, hc ▸ .enter hu hx hne hw⟩
    · obtain ⟨m, hm, hw'⟩ := ih hc.symm
      exact ⟨m, .enter (loosen hu) hx hne hm, hw'⟩

section Locate

variable {fs fs' : FileSystem} {q : Path}

theorem locate_iff : fs.locate ending q = .ok p ↔
    ¬ longestPath < q.text.systemLength ∧
      Walks fs.root ending linkBudget (fs.startOf q) q.names p := by
  unfold locate
  split
  · rename_i h
    simp [h]
  · rename_i h
    simp [h, walk_iff_walks]

theorem node?_startOf (fs : FileSystem) (q : Path) : fs.node? (fs.startOf q) = some .directory := by
  unfold startOf
  split
  · exact Folder.node?_root fs.root
  · exact fs.here_directory

theorem sound_of_locate (h : fs.locate ending q = .ok p) : p.Sound fs.root :=
  (locate_iff.mp h).2.sound (node?_startOf fs q)

theorem locate_keeps (hh : fs'.here = fs.here) (hk : KeepsPassages fs.root fs'.root)
    (h : fs.locate ending q = .ok p)
    (hl : ∀ t, fs'.node? p.location = some (.link t) → p.node = some (.link t)) :
    fs'.locate ending q = .ok ⟨p.location, fs'.node? p.location⟩ := by
  obtain ⟨hs, hw⟩ := locate_iff.mp h
  have hstart : fs'.startOf q = fs.startOf q := by
    rw [startOf, startOf, hh]
  apply locate_iff.mpr
  rw [hstart]
  exact ⟨hs, hw.keeps hk hl⟩

theorem locate_itself (h : fs.locate .written q = .ok p)
    (hq : ∀ m t, fs.locate .itself q ≠ .ok ⟨m, some (.link t)⟩) : fs.locate .itself q = .ok p := by
  obtain ⟨hs, hw⟩ := locate_iff.mp h
  rcases hw.itself with hi | ⟨m, t, hi⟩
  · exact locate_iff.mpr ⟨hs, hi⟩
  · exact absurd (locate_iff.mpr ⟨hs, hi⟩) (hq m t)

end Locate

end ParserRelay.FileSystem
