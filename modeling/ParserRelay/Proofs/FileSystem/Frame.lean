import Mathlib.Data.List.Basic
import ParserRelay.FileSystem.View
/-!
# Changes of a single node

Putting an entry without children where no directory stands, or taking away what is no directory,
changes the node at this one location and no other node of the whole view.
-/
namespace ParserRelay

def Entry.Childless (e : Entry) : Prop := ∀ n r, Folder.below (some e) (n :: r) = none

theorem Entry.childless_file (c : Bytes) : (Entry.file c).Childless := fun _ _ => rfl

theorem Entry.childless_empty : (Entry.folder []).Childless := by
  intro n r
  cases r <;> rfl

namespace Folder

theorem node?_root (f : Folder) : f.node? [] = some .directory := rfl

theorem node?_below_of_ne_directory {f : Folder} {l m : Location} (h : f.node? l ≠ some .directory)
    (hp : l <+: m) (hne : l ≠ m) : f.node? m = none := by
  cases hm : f.node? m with
  | none => rfl
  | some x => exact absurd (directory_above hp hm hne) h

theorem node?_replace_below (e : Entry) (he : e.Childless) (f : Folder) {l : Location}
    {n : FileName}
    (hd : f.node? l = some .directory) {r : Location} (hr : r ≠ []) :
    (replace (some e) f (l ++ [n])).node? ((l ++ [n]) ++ r) = none := by
  obtain ⟨d, hl, hn⟩ := Option.map_eq_some_iff.mp hd
  obtain ⟨g, rfl⟩ : ∃ g, d = .folder g := by
    cases d with
    | folder g => exact ⟨g, rfl⟩
    | file c => cases hn
    | link t => cases hn
  obtain ⟨k, s, rfl⟩ := List.exists_cons_of_ne_nil hr
  rw [node?, lookup?_replace _ _ (by simp), below_append, below_alter_self (some e) hl, he]
  rfl

theorem node?_put (e : Entry) (he : e.Childless) (f : Folder) {l : Location} {n : FileName}
    (hd : f.node? l = some .directory) (hn : f.node? (l ++ [n]) ≠ some .directory) (m : Location) :
    (f.put e (l ++ [n])).node? m = if m = l ++ [n] then some e.node else f.node? m := by
  split
  · rename_i hm
    rw [hm]
    exact node?_replace_self (some e) f hd
  · rename_i hm
    by_cases hp : l ++ [n] <+: m
    · obtain ⟨r, rfl⟩ := hp
      have hr : r ≠ [] := by
        rintro rfl
        simp at hm
      rw [node?_below_of_ne_directory hn (List.prefix_append _ _) (Ne.symm hm)]
      exact node?_replace_below e he f hd hr
    · exact node?_replace_of_not_prefix _ _ hp

theorem node?_remove (f : Folder) {l : Location} {n : FileName} (hd : f.node? l = some .directory)
    (hn : f.node? (l ++ [n]) ≠ some .directory) (m : Location) :
    (f.remove (l ++ [n])).node? m = if m = l ++ [n] then none else f.node? m := by
  have hself : (f.remove (l ++ [n])).node? (l ++ [n]) = none := node?_replace_self none f hd
  split
  · rename_i hm
    rw [hm, hself]
  · rename_i hm
    by_cases hp : l ++ [n] <+: m
    · rw [node?_below_of_ne_directory hn hp (Ne.symm hm),
        node?_below_of_ne_directory (by simp [hself]) hp (Ne.symm hm)]
    · exact node?_replace_of_not_prefix _ _ hp

end Folder

namespace FileSystem

/-- A tree with its root as the current directory. -/
def atRoot (root : Folder) : FileSystem :=
  ⟨root, [], List.forall_mem_nil Path.PlainName, Folder.node?_root root⟩

def empty : FileSystem := atRoot []

variable {fs : FileSystem} {l : Location} {n : FileName}

theorem node?_put (hd : fs.node? l = some .directory) (hn : fs.node? (l ++ [n]) ≠ some .directory)
    {e : Entry} (he : e.Childless) (m : Location) :
    (fs.put (l ++ [n]) e).node? m = if m = l ++ [n] then some e.node else fs.node? m := by
  rw [node?, put, Folder.put, root_withRoot_replace hn]
  exact Folder.node?_put e he fs.root hd hn m

theorem node?_remove (hd : fs.node? l = some .directory)
    (hn : fs.node? (l ++ [n]) ≠ some .directory)
    (m : Location) :
    (fs.remove (l ++ [n])).node? m = if m = l ++ [n] then none else fs.node? m := by
  rw [node?, remove, Folder.remove, root_withRoot_replace hn]
  exact Folder.node?_remove fs.root hd hn m

theorem here_put (l : Location) (e : Entry) : (fs.put l e).here = fs.here := here_withRoot _ _

theorem here_remove (l : Location) : (fs.remove l).here = fs.here := here_withRoot _ _

end FileSystem
end ParserRelay
