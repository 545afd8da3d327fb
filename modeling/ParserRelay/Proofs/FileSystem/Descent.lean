import ParserRelay.Proofs.FileSystem.Contents
import ParserRelay.Proofs.Path.Spelling
/-!
# Walks through directories

A name that leads down to a directory takes a walk there, and double dots take it back up. So a walk
from above goes on from the directory that its first names lead to, and from anywhere below it too.
-/
namespace ParserRelay.FileSystem
open ParserRelay.Path (dotDot Proper)

variable {root : Folder} {ending : Ending} {b : ℕ} {l : Location} {n : FileName}
  {ns r : List FileName} {p : Place}

/-- Where names lead from a location if none of them is a link. -/
def descent (l : Location) (ns : List FileName) : Location := l ++ ns.map WideText.systemForm

theorem descent_cons (l : Location) (n : FileName) (ns : List FileName) :
    descent l (n :: ns) = descent (under l n) ns := by
  simp [descent, under]

theorem descent_concat (l : Location) (ns : List FileName) (n : FileName) :
    descent l (ns ++ [n]) = under (descent l ns) n := by
  simp [descent, under]

theorem descent_plain (h : ∀ n ∈ ns, Path.PlainName n) (l : Location) : descent l ns = l ++ ns := by
  have hsame : ns.map WideText.systemForm = ns.map id := List.map_congr_left fun n hn => (h n hn).2.2.2.2.2
  rw [descent, hsame, List.map_id]

theorem directory_of_descent {x : Node} (h : root.node? (descent l (n :: ns)) = some x) :
    root.node? l = some .directory := by
  refine Folder.directory_above (List.prefix_append l _) h ?_
  simp

theorem directory_under (h : root.node? (descent l (n :: ns)) = some .directory) :
    root.node? (under l n) = some .directory := by
  rw [descent_cons] at h
  cases ns with
  | nil => simpa [descent] using h
  | cons m ns => exact directory_of_descent h

theorem Walks.entered (hn : Proper n) (hd : root.node? (under l n) = some .directory)
    (h : Walks root ending b l (n :: r) p) : Walks root ending b (under l n) r p := by
  cases h with
  | stay _ hs _ => exact absurd hs (not_or.mpr ⟨hn.ne_dot, hn.ne_nil⟩)
  | climb _ _ => exact absurd rfl hn.ne_dotDot
  | free _ hf => rw [hd] at hf; cases hf
  | halt _ hl _ => rw [hd] at hl; cases hl
  | follow _ hl _ _ => rw [hd] at hl; cases hl
  | enter _ _ _ hw => exact hw

theorem Walks.arrived (h : Walks root ending b l [] p) : p = ⟨l, root.node? l⟩ := by
  cases h
  rfl

theorem Walks.past (hns : ∀ n ∈ ns, Proper n) (hd : root.node? (descent l ns) = some .directory)
    (h : Walks root ending b l (ns ++ r) p) : Walks root ending b (descent l ns) r p := by
  induction ns generalizing l with
  | nil => simpa [descent] using h
  | cons n ns ih =>
    have hstep := h.entered (hns n List.mem_cons_self) (directory_under hd)
    rw [descent_cons] at hd ⊢
    exact ih (fun m hm => hns m (List.mem_cons_of_mem n hm)) hd hstep

theorem Walks.through (he : ending ≠ .written)
    (hns : ∀ n ∈ ns, Proper n ∧ ¬ longestName < n.systemLength)
    (hd : root.node? (descent l ns) = some .directory)
    (h : Walks root ending b (descent l ns) r p) : Walks root ending b l (ns ++ r) p := by
  induction ns generalizing l with
  | nil => simpa [descent] using h
  | cons n ns ih =>
    obtain ⟨hn, hshort⟩ := hns n List.mem_cons_self
    have hu : LooksUp root ending l n (ns ++ r) := ⟨directory_of_descent hd,
      not_or.mpr ⟨hn.ne_dot, hn.ne_nil⟩, hn.ne_dotDot, fun hw => he hw.1, hshort⟩
    have hstep := directory_under hd
    rw [descent_cons] at hd h
    exact .enter hu hstep (by simp) (ih (fun m hm => hns m (List.mem_cons_of_mem n hm)) hd h)

theorem Walks.climbs (k : ℕ) (hd : root.node? l = some .directory)
    (h : Walks root ending b (l.take (l.length - k)) r p) :
    Walks root ending b l (List.replicate k dotDot ++ r) p := by
  induction k generalizing l with
  | zero => simpa using h
  | succ k ih =>
    refine .climb hd (ih (node?_dropLast hd) ?_)
    rw [List.length_dropLast, List.dropLast_eq_take, List.take_take]
    convert h using 2
    omega

end ParserRelay.FileSystem
