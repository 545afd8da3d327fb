import ParserRelay.FileSystem.Tree
/-! The effect of a replacement on the view of a tree: the location itself gets the new node, and no
location that is not below it changes. -/
namespace ParserRelay.Folder

theorem child?_setChild_self (name : FileName) (entry : Entry) (f : Folder) :
    child? name (setChild name entry f) = some entry := by
  induction f with
  | nil => simp [setChild, child?]
  | cons e r ih => obtain ⟨n, e⟩ := e; by_cases h : n = name <;> simp [setChild, child?, h, ih]

theorem child?_setChild_of_ne {name other : FileName} (h : other ≠ name) (entry : Entry) (f : Folder) :
    child? other (setChild name entry f) = child? other f := by
  induction f with
  | nil => simp [setChild, child?, Ne.symm h]
  | cons e r ih =>
    obtain ⟨n, e⟩ := e
    by_cases hn : n = name
    · simp [setChild, child?, hn, Ne.symm h]
    · by_cases ho : n = other
      · simp [setChild, child?, ho, h]
      · simp [setChild, child?, hn, ho, ih]

theorem child?_removeChild_self (name : FileName) (f : Folder) :
    child? name (removeChild name f) = none := by
  induction f with
  | nil => rfl
  | cons e r ih =>
    obtain ⟨n, e⟩ := e
    by_cases h : n = name
    · simpa [removeChild, h] using ih
    · simpa [removeChild, h, child?] using ih

theorem child?_removeChild_of_ne {name other : FileName} (h : other ≠ name) (f : Folder) :
    child? other (removeChild name f) = child? other f := by
  induction f with
  | nil => rfl
  | cons e r ih =>
    obtain ⟨n, e⟩ := e
    by_cases hn : n = name
    · have ho : n ≠ other := fun ho => h (ho ▸ hn)
      simpa [removeChild, hn, child?, Ne.symm h] using ih
    · by_cases ho : n = other
      · simp [removeChild, child?, ho, h]
      · simpa [removeChild, hn, child?, ho] using ih

theorem child?_alterChild_self (name : FileName) (new : Option Entry) (f : Folder) :
    child? name (alterChild name new f) = new := by
  cases new with
  | none => exact child?_removeChild_self name f
  | some e => exact child?_setChild_self name e f

theorem child?_alterChild_of_ne {name other : FileName} (h : other ≠ name) (new : Option Entry) (f : Folder) :
    child? other (alterChild name new f) = child? other f := by
  cases new with
  | none => exact child?_removeChild_of_ne h f
  | some e => exact child?_setChild_of_ne h e f

theorem node_below_alter (new : Option Entry) {e : Option Entry} {l m : Location} (h : ¬ l <+: m) :
    (below (alter new e l) m).map Entry.node = (below e m).map Entry.node := by
  induction l generalizing e m with
  | nil => exact absurd List.nil_prefix h
  | cons n r ih =>
    match e, m with
    | none, _ => simp [alter]
    | some (.file _), _ => simp [alter]
    | some (.link _), _ => simp [alter]
    | some (.folder f), [] => simp [alter, below, Entry.node]
    | some (.folder f), k :: s =>
      by_cases hk : k = n
      · subst hk
        have hs : ¬ r <+: s := fun hp => h (by simpa using hp)
        simpa [alter, below, child?_alterChild_self] using ih hs
      · simp [alter, below, child?_alterChild_of_ne hk]

theorem below_alter_self (new : Option Entry) {e : Option Entry} {l : Location} {n : FileName} {f : Folder}
    (h : below e l = some (.folder f)) : below (alter new e (l ++ [n])) (l ++ [n]) = new := by
  induction l generalizing e with
  | nil =>
    obtain rfl : e = some (.folder f) := h
    simp [alter, below, child?_alterChild_self]
  | cons k r ih =>
    match e with
    | none => simp [below] at h
    | some (.file _) => simp [below] at h
    | some (.link _) => simp [below] at h
    | some (.folder g) => simpa [alter, below, child?_alterChild_self] using ih h

theorem lookup?_replace (new : Option Entry) (f : Folder) {l : Location} (h : l ≠ []) (m : Location) :
    lookup? (replace new f l) m = below (alter new (some (.folder f)) l) m := by
  cases l with
  | nil => exact absurd rfl h
  | cons n r => rfl

theorem node?_replace_of_not_prefix (new : Option Entry) (f : Folder) {l m : Location} (h : ¬ l <+: m) :
    (replace new f l).node? m = f.node? m := by
  have hl : l ≠ [] := fun e => h (e ▸ List.nil_prefix)
  rw [node?, lookup?_replace new f hl, node_below_alter new h]
  rfl

theorem node?_replace_self (new : Option Entry) (f : Folder) {l : Location} {n : FileName}
    (h : f.node? l = some .directory) :
    (replace new f (l ++ [n])).node? (l ++ [n]) = new.map Entry.node := by
  obtain ⟨e, he, hn⟩ := Option.map_eq_some_iff.mp h
  obtain ⟨g, rfl⟩ : ∃ g, e = .folder g := by cases e <;> simp_all [Entry.node]
  rw [node?, lookup?_replace new f (by simp), below_alter_self new he]

theorem below_append (e : Option Entry) (l m : Location) : below e (l ++ m) = below (below e l) m := by
  induction l generalizing e with
  | nil => rfl
  | cons n r ih =>
    match e with
    | some (.folder f) => exact ih _
    | none => cases m <;> rfl
    | some (.file _) => cases m <;> rfl
    | some (.link _) => cases m <;> rfl

/-- Whatever has something below it is a directory. -/
theorem directory_above {f : Folder} {l m : Location} {x : Node} (hp : l <+: m) (hm : f.node? m = some x)
    (hne : l ≠ m) : f.node? l = some .directory := by
  obtain ⟨r, rfl⟩ := hp
  obtain ⟨e, he, -⟩ := Option.map_eq_some_iff.mp hm
  rw [lookup?, below_append] at he
  cases r with
  | nil => simp at hne
  | cons n r =>
    have hl : lookup? f l = below (some (.folder f)) l := rfl
    match h : below (some (.folder f)) l, he with
    | some (.folder g), _ => simp [node?, hl, h, Entry.node]
    | none, he => simp [below] at he
    | some (.file _), he => simp [below] at he
    | some (.link _), he => simp [below] at he

end ParserRelay.Folder

namespace ParserRelay.FileSystem

theorem root_withRoot {fs : FileSystem} {root : Folder} (h : root.node? fs.here = some .directory) :
    (fs.withRoot root).root = root := by simp [withRoot, h]

theorem here_withRoot (fs : FileSystem) (root : Folder) : (fs.withRoot root).here = fs.here := by
  unfold withRoot
  split <;> rfl

theorem not_prefix_here {fs : FileSystem} {l : Location} (h : fs.node? l ≠ some .directory) :
    ¬ l <+: fs.here := by
  intro hp
  by_cases he : l = fs.here
  · exact h (he ▸ fs.here_directory)
  · exact h (Folder.directory_above hp fs.here_directory he)

theorem root_withRoot_replace {fs : FileSystem} {l : Location} (h : fs.node? l ≠ some .directory)
    (new : Option Entry) : (fs.withRoot (fs.root.replace new l)).root = fs.root.replace new l := by
  apply root_withRoot
  rw [Folder.node?_replace_of_not_prefix new fs.root (not_prefix_here h)]
  exact fs.here_directory

end ParserRelay.FileSystem
