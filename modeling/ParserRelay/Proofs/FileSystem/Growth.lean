import ParserRelay.FileSystem.Edit
import ParserRelay.FileSystem.Resolve
import ParserRelay.Proofs.FileSystem.Walk
/-!
# Directories made on the way to a path

Making a directory with its parents adds directories that paths above it name, and changes nothing
else, also where it fails part of the way. A file that is written and then discarded leaves no trace
but these.
-/
namespace ParserRelay.FileSystem

variable {fs fs' fs'' : FileSystem} {p q : Path} {l m : Location}

/-- A place that is free or holds a file: no walk passes it. -/
def Replaceable (x : Option Node) : Prop := ∀ y, x = some y → isFileNode y = true

theorem Replaceable.not_directory {x : Option Node} (h : Replaceable x) : x ≠ some .directory := by
  intro hx
  cases h _ hx

/-- The two trees differ at most at one location, and no walk passes it in the first one. -/
structure ChangedAt (fs fs' : FileSystem) (l : Location) : Prop where
  here : fs'.here = fs.here
  replaceable : Replaceable (fs.node? l)
  frame : ∀ m, m ≠ l → fs'.node? m = fs.node? m

theorem ChangedAt.trans (h : ChangedAt fs fs' l) (h' : ChangedAt fs' fs'' l) :
    ChangedAt fs fs'' l :=
  ⟨h'.here.trans h.here, h.replaceable, fun m hm => (h'.frame m hm).trans (h.frame m hm)⟩

theorem ChangedAt.keeps (h : ChangedAt fs fs' l) : KeepsPassages fs.root fs'.root := by
  intro m x hm hx
  by_cases he : m = l
  · subst he
    rw [h.replaceable x hm] at hx
    cases hx
  · exact (h.frame m he).trans hm

theorem ChangedAt.locate {ending : Ending} {x y : Option Node} (h : ChangedAt fs fs' l)
    (hw : fs.locate ending p = .ok ⟨l, x⟩) (hy : fs'.node? l = y) (hl : ∀ t, y ≠ some (.link t)) :
    fs'.locate ending p = .ok ⟨l, y⟩ := by
  subst hy
  exact locate_keeps h.here h.keeps hw (fun t ht => absurd ht (hl t))

theorem put_at {ending : Ending} {x : Option Node} {e : Entry}
    (hw : fs.locate ending p = .ok ⟨l, x⟩)
    (hx : Replaceable x) (he : e.Childless) :
    ChangedAt fs (fs.put l e) l ∧ (fs.put l e).node? l = some e.node := by
  have hs := sound_of_locate hw
  obtain rfl : x = fs.node? l := hs.node
  obtain ⟨k, n, rfl, hk⟩ := hs.parent hx.not_directory
  have hput := node?_put hk hx.not_directory he
  exact ⟨⟨here_put _ _, hx, fun m hm => by rw [hput, if_neg hm]⟩, by rw [hput, if_pos rfl]⟩

theorem remove_at {ending : Ending} {c : Bytes}
    (hw : fs.locate ending p = .ok ⟨l, some (.file c)⟩) :
    ChangedAt fs (fs.remove l) l ∧ (fs.remove l).node? l = none := by
  have hs := sound_of_locate hw
  have hl : fs.node? l = some (.file c) := hs.node.symm
  have hx : Replaceable (fs.node? l) := by
    intro y hy
    rw [hl] at hy
    cases hy
    rfl
  obtain ⟨k, n, rfl, hk⟩ := hs.parent (by simp)
  have hremove := node?_remove hk hx.not_directory
  exact ⟨⟨here_remove _, hx, fun m hm => by rw [hremove, if_neg hm]⟩, by rw [hremove, if_pos rfl]⟩

def OnTheWay (fs : FileSystem) (p : Path) (m : Location) : Prop :=
  ∃ q ∈ p.ancestry, fs.locate .itself q = .ok ⟨m, some .directory⟩

/-- The second tree has new directories on the way to the path, and is the first one otherwise. -/
structure Grown (fs fs' : FileSystem) (p : Path) : Prop where
  here : fs'.here = fs.here
  view : ∀ m, fs'.node? m = fs.node? m ∨ fs.node? m = none ∧ OnTheWay fs' p m

theorem OnTheWay.node? (h : OnTheWay fs p m) : fs.node? m = some .directory := by
  obtain ⟨q, -, hq⟩ := h
  exact (sound_of_locate hq).node.symm

theorem OnTheWay.keeps (hh : fs'.here = fs.here) (hk : KeepsPassages fs.root fs'.root)
    (h : OnTheWay fs p m) : OnTheWay fs' p m := by
  have hm : fs'.node? m = some .directory := hk m _ h.node? rfl
  obtain ⟨q, hq, hw⟩ := h
  have hnot : ∀ t, fs'.node? m = some (.link t) → some Node.directory = some (.link t) := by
    intro t ht
    rw [hm] at ht
    exact ht
  have hw' := locate_keeps hh hk hw hnot
  rw [hm] at hw'
  exact ⟨q, hq, hw'⟩

theorem Grown.keeps (h : Grown fs fs' p) : KeepsPassages fs.root fs'.root := by
  intro m x hm _
  rcases h.view m with he | ⟨hn, -⟩
  · exact he.trans hm
  · rw [show fs.root.node? m = none from hn] at hm
    cases hm

theorem Grown.refl (fs : FileSystem) (p : Path) : Grown fs fs p := ⟨rfl, fun _ => .inl rfl⟩

theorem Grown.trans (h : Grown fs fs' p) (h' : Grown fs' fs'' p) : Grown fs fs'' p := by
  constructor
  · exact h'.here.trans h.here
  · intro m
    rcases h.view m with he | ⟨hn, hw⟩
    · rw [← he]
      exact h'.view m
    · exact .inr ⟨hn, hw.keeps h'.here h'.keeps⟩

theorem Grown.mono (hpq : p.ancestry ⊆ q.ancestry) (h : Grown fs fs' p) : Grown fs fs' q := by
  constructor
  · exact h.here
  · intro m
    rcases h.view m with he | ⟨hn, a, ha, hw⟩
    · exact .inl he
    · exact .inr ⟨hn, a, hpq ha, hw⟩

theorem mem_ancestry : q ∈ p.ancestry ↔ q.anchor = p.anchor ∧ q.names <+: p.names := by
  obtain ⟨a, ns⟩ := p
  obtain ⟨b, ms⟩ := q
  simp only [Path.ancestry, List.mem_map, List.mem_range, Path.mk.injEq]
  constructor
  · rintro ⟨i, -, rfl, rfl⟩
    exact ⟨rfl, List.take_prefix _ _⟩
  · rintro ⟨rfl, hp⟩
    have hl := hp.length_le
    refine ⟨ns.length - ms.length, by omega, rfl, ?_⟩
    rw [Nat.sub_sub_self hl]
    exact (List.prefix_iff_eq_take.mp hp).symm

theorem self_mem_ancestry (p : Path) : p ∈ p.ancestry := mem_ancestry.mpr ⟨rfl, List.prefix_refl _⟩

theorem parent_mem_ancestry (p : Path) : p.parent ∈ p.ancestry :=
  mem_ancestry.mpr ⟨rfl, p.names.dropLast_prefix⟩

theorem mem_ancestry_child (p : Path) (n : FileName) : p ∈ (p.child n).ancestry :=
  mem_ancestry.mpr ⟨rfl, List.prefix_append p.names [n]⟩

theorem ancestry_parent (p : Path) : p.parent.ancestry ⊆ p.ancestry := by
  intro q hq
  obtain ⟨ha, hp⟩ := mem_ancestry.mp hq
  exact mem_ancestry.mpr ⟨ha, hp.trans p.names.dropLast_prefix⟩

theorem grown_makeDirectory (fs : FileSystem) (p : Path) :
    Grown fs (fs.makeDirectory p).after p := by
  unfold makeDirectory ifUsable
  split
  · exact .refl fs p
  split
  · exact .refl fs p
  · exact .refl fs p
  · rename_i l hw
    have hn : fs.node? l = none := (sound_of_locate hw).node.symm
    obtain ⟨hc, hnew⟩ := put_at hw (fun y hy => by cases hy) Entry.childless_empty
    have hl : fs.node? l = none ∧ OnTheWay (fs.put l (.folder [])) p l :=
      ⟨hn, p, self_mem_ancestry p, hc.locate hw hnew (fun t => by simp)⟩
    constructor
    · exact hc.here
    · intro m
      by_cases hm : m = l
      · subst hm
        exact .inr hl
      · exact .inl (hc.frame m hm)

theorem after_ensureDirectory (fs : FileSystem) (p : Path) :
    (fs.ensureDirectory p).after = (fs.makeDirectory p).after := by
  unfold ensureDirectory unlessPresent
  simp only
  split
  · rfl
  · rfl
  · rfl
  · split <;> rfl

theorem grown_ensureDirectory (fs : FileSystem) (p : Path) :
    Grown fs (fs.ensureDirectory p).after p := by
  rw [after_ensureDirectory]
  exact grown_makeDirectory fs p

theorem grown_ensureDirectories (n : Nat) (fs : FileSystem) (p : Path) :
    Grown fs (ensureDirectories n fs p).after p := by
  induction n generalizing fs p with
  | zero => exact grown_ensureDirectory fs p
  | succ n ih =>
    have hfirst := grown_ensureDirectory fs p
    have habove := (ih (fs.ensureDirectory p).after p.parent).mono (ancestry_parent p)
    unfold ensureDirectories
    simp only
    split
    · split
      · exact hfirst.trans habove
      · exact (hfirst.trans habove).trans (grown_ensureDirectory _ p)
    · exact hfirst

theorem grown_makeDirectories (fs : FileSystem) (p : Path) :
    Grown fs (fs.makeDirectories p).after p :=
  grown_ensureDirectories _ fs p

theorem write_cases {content : Bytes} (h : (fs.write p content).failure = none) :
    p.fault? = none ∧ ∃ l x, fs.locate .written p = .ok ⟨l, x⟩ ∧ x ≠ some .directory ∧
      (fs.write p content).after = fs.put l (.file content) := by
  unfold write ifUsable at h ⊢
  split at h
  · cases h
  rename_i hf
  split at h
  · cases h
  · cases h
  · rename_i l x hd hw
    exact ⟨hf, l, x, hw, hd, rfl⟩

theorem not_link_of_linkTarget? (h : fs.linkTarget? p = none) (m : Location) (t : WideText) :
    fs.locate .itself p ≠ .ok ⟨m, some (.link t)⟩ := by
  intro hl
  rw [linkTarget?, hl] at h
  cases h

theorem discard_of_locate {c : Bytes} (hf : p.fault? = none)
    (hw : fs.locate .itself p = .ok ⟨l, some (.file c)⟩) : fs.discard p = ⟨fs.remove l, none⟩ := by
  simp [discard, ifUsable, hf, hw]

theorem discard_write {content : Bytes} (h : (fs.write p content).failure = none)
    (hp : fs.linkTarget? p = none) :
    ∃ l fs', (fs.write p content).after.discard p = ⟨fs', none⟩ ∧ ChangedAt fs fs' l ∧
      fs'.locate .itself p = .ok ⟨l, none⟩ := by
  obtain ⟨hf, l, x, hw, hd, ha⟩ := write_cases h
  have hno := not_link_of_linkTarget? hp
  have hi := locate_itself hw hno
  have hx : Replaceable x := by
    rintro y rfl
    cases y with
    | file c => rfl
    | link t => exact absurd hi (hno l t)
    | directory => exact absurd rfl hd
  -- The file stands where the path leads, also for a walk that follows no link.
  obtain ⟨hput, hnew⟩ := put_at hi hx (Entry.childless_file content)
  have hi' := hput.locate hi hnew (fun t => by simp [Entry.node])
  obtain ⟨hremove, hgone⟩ := remove_at hi'
  have hi'' := hremove.locate hi' hgone (fun t => by simp)
  rw [ha, discard_of_locate hf hi']
  exact ⟨l, _, rfl, hput.trans hremove, hi''⟩

end ParserRelay.FileSystem
