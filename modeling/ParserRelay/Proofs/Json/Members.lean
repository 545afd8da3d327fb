import Mathlib.Data.List.Induction
import Mathlib.Data.List.Nodup
import ParserRelay.Json.Basic
/-!
# What a repeated key leaves

Of members as they are written, a key keeps the first of its places and the last of its values. The
rule is stated on the two lists as wholes; taking the members in one by one follows it, and no other
list does.
-/
namespace ParserRelay.Json.Members

variable {written m n : Members} {key : WideText} {value : Json}

structure Kept (written m : Members) : Prop where
  places : m.keys = (keys written).eraseDups
  values : ∀ key, get? key m = get? key written.reverse

theorem keys_put (key : WideText) (value : Json) (m : Members) :
    keys (put key value m) = if key ∈ keys m then keys m else keys m ++ [key] := by
  induction m with
  | nil => rfl
  | cons e r ih =>
    obtain ⟨k, v⟩ := e
    have hcons (v : Json) (s : Members) : keys ((k, v) :: s) = k :: keys s := rfl
    by_cases h : k = key
    · subst h
      simp [put, hcons]
    · by_cases hr : key ∈ keys r
      · simp [put, hcons, h, ih, hr]
      · simp [put, hcons, h, Ne.symm h, ih, hr]

theorem nodup_put (h : (keys m).Nodup) : (keys (put key value m)).Nodup := by
  rw [keys_put]
  split
  · exact h
  · rename_i hk
    apply List.nodup_append.mpr
    refine ⟨h, List.nodup_singleton key, fun k hm j hj => ?_⟩
    rw [List.mem_singleton.mp hj]
    exact fun he => hk (he ▸ hm)

theorem ofWritten_concat (written : Members) (key : WideText) (value : Json) :
    ofWritten (written ++ [(key, value)]) = put key value (ofWritten written) :=
  List.foldl_append

theorem nodup_ofWritten (written : Members) : (keys (ofWritten written)).Nodup := by
  induction written using List.reverseRecOn with
  | nil => exact List.nodup_nil
  | append_singleton w e ih =>
    rw [ofWritten_concat]
    exact nodup_put ih

theorem Kept.put (h : Kept written m) : Kept (written ++ [(key, value)]) (put key value m) := by
  constructor
  · have hkeys : keys (written ++ [(key, value)]) = keys written ++ [key] := List.map_append
    rw [keys_put, hkeys, List.eraseDups_append, h.places]
    by_cases hk : key ∈ keys written
    · simp [hk, List.removeAll]
    · simp [hk, List.removeAll, List.eraseDups_cons]
  · intro k
    rw [List.reverse_append, List.reverse_singleton, List.singleton_append, get?]
    split
    · rename_i hk
      rw [← hk]
      exact get?_put_self key value m
    · rename_i hk
      rw [get?_put_of_ne (Ne.symm hk), h.values]

theorem kept_ofWritten (written : Members) : Kept written (ofWritten written) := by
  induction written using List.reverseRecOn with
  | nil => exact ⟨rfl, fun _ => rfl⟩
  | append_singleton w e ih =>
    rw [ofWritten_concat]
    exact ih.put

theorem get?_of_not_mem (h : key ∉ keys m) : get? key m = none := by
  induction m with
  | nil => rfl
  | cons e r ih =>
    obtain ⟨hk, hr⟩ := not_or.mp (mt List.mem_cons.mpr h)
    rw [get?, if_neg (Ne.symm hk)]
    exact ih hr

theorem eq_of_get? (hn : (keys m).Nodup) (hk : keys m = keys n)
    (hg : ∀ key, get? key m = get? key n) : m = n := by
  induction m generalizing n with
  | nil => exact (List.map_eq_nil_iff.mp hk.symm).symm
  | cons e r ih =>
    obtain ⟨k, v⟩ := e
    obtain ⟨⟨j, u⟩, s, rfl⟩ : ∃ f s, n = f :: s := by
      cases n with
      | nil => cases hk
      | cons f s => exact ⟨f, s, rfl⟩
    obtain ⟨rfl, hr⟩ : k = j ∧ keys r = keys s := List.cons.inj hk
    have hv := hg k
    rw [get?, get?, if_pos rfl, if_pos rfl, Option.some.injEq] at hv
    obtain ⟨hfirst, hrest⟩ := List.nodup_cons.mp hn
    -- The first key does not come again, so what the rests hold is told by the other keys.
    rw [hv, ih hrest hr fun key => ?_]
    by_cases he : k = key
    · subst he
      rw [get?_of_not_mem hfirst, get?_of_not_mem (hr ▸ hfirst)]
    · have hkey := hg key
      rwa [get?, get?, if_neg he, if_neg he] at hkey

theorem Kept.eq_ofWritten (h : Kept written m) : m = ofWritten written := by
  have hw := kept_ofWritten written
  have hk := h.places.trans hw.places.symm
  apply eq_of_get? _ hk
  · intro key
    rw [h.values, hw.values]
  · rw [hk]
    exact nodup_ofWritten written

theorem exists_get? (h : key ∈ keys m) : ∃ value, get? key m = some value := by
  induction m with
  | nil => cases h
  | cons e r ih =>
    by_cases hk : e.1 = key
    · exact ⟨e.2, if_pos hk⟩
    · rw [get?, if_neg hk]
      exact ih ((List.mem_cons.mp h).resolve_left (Ne.symm hk))

theorem get?_eq_some_iff (hn : (keys m).Nodup) : get? key m = some value ↔ (key, value) ∈ m := by
  induction m with
  | nil => simp [get?]
  | cons e r ih =>
    obtain ⟨k, v⟩ := e
    obtain ⟨hk, hr⟩ := List.nodup_cons.mp hn
    have hhead (he : k = key) : (key, value) ∉ r :=
      fun h => hk (List.mem_map.mpr ⟨_, h, he.symm⟩)
    by_cases he : k = key
    · simp [get?, he, hhead he, eq_comm]
    · simp [get?, he, Ne.symm he, ih hr]

theorem get?_filter {p : WideText × Json → Bool} (h : ∀ v, p (key, v)) :
    get? key (m.filter p) = get? key m := by
  induction m with
  | nil => rfl
  | cons e r ih =>
    obtain ⟨k, v⟩ := e
    by_cases he : k = key
    · subst he
      rw [List.filter_cons_of_pos (h v), get?, get?, if_pos rfl, if_pos rfl]
    · rw [List.filter_cons, get?, if_neg he]
      split
      · rw [get?, if_neg he, ih]
      · exact ih

end ParserRelay.Json.Members
