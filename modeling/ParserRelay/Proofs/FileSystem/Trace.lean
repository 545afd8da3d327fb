import ParserRelay.Proofs.FileSystem.Descent
import ParserRelay.Proofs.Path.Faults
/-!
# Links worked off

A path is resolved name by name: a name that is no link is kept, and a link is worked off before the
names behind it. What a path resolves to, or how that fails, depends on its names alone.
-/
namespace ParserRelay.FileSystem
open ParserRelay.Path (dot dotDot slash Proper)

variable {fs : FileSystem} {p q : Path} {n : FileName} {names r : List FileName} {seen seen' : Seen}
  {jump : Seen → Path → WideText → Except FileError Trace}

def trace (fs : FileSystem) (p : Path) : Except FileError Trace :=
  fs.traceTarget fs.traceFuel [] ⟨.current, []⟩ p.text

/-- A path as it is seen from the root, without double dots. -/
def fromRoot (fs : FileSystem) (p : Path) : Path := (Path.join ⟨.root, fs.here⟩ p).collapsed

def Trace.path (fs : FileSystem) : Trace → Path
  | .reached p _ => fs.fromRoot p
  | .looped t => (Path.ofText (appendText fs.hereText t)).collapsed

def settle (fs : FileSystem) (q : Path) : Except FileError Path := match q.fault? with
  | some fault => .error (.unusable fault)
  | none => match fs.stat q with
    | .error .tooManyLinks => .error (.linkLoop q.text)
    | _ => .ok q

theorem resolve_eq (fs : FileSystem) (p : Path) : fs.resolve p = match fs.trace p with
    | .error e => .error e
    | .ok t => fs.settle (t.path fs) := by
  rw [resolve, ← trace]
  cases fs.trace p with
  | error e => rfl
  | ok t => cases t <;> rfl

theorem settle_eq_ok_iff {q' : Path} :
    fs.settle q = .ok q' ↔ q = q' ∧ q.fault? = none ∧ fs.stat q ≠ .error .tooManyLinks := by
  unfold settle
  split
  · rename_i fault hf
    simp [hf]
  · rename_i hf
    split
    · rename_i hl
      simp [hl]
    · rename_i hl
      have hs : fs.stat q ≠ .error .tooManyLinks := hl
      simp [hf, hs]

theorem resolve_eq_ok_iff : fs.resolve p = .ok q ↔
    ∃ t, fs.trace p = .ok t ∧ t.path fs = q ∧ q.fault? = none ∧ fs.stat q ≠ .error .tooManyLinks := by
  rw [resolve_eq]
  cases fs.trace p with
  | error e => simp
  | ok t =>
    simp only [settle_eq_ok_iff, Except.ok.injEq, exists_eq_left']
    constructor
    · rintro ⟨rfl, h⟩
      exact ⟨rfl, h⟩
    · rintro ⟨rfl, h⟩
      exact ⟨rfl, h⟩

theorem fault?_of_resolve (h : fs.resolve p = .ok q) : q.fault? = none := by
  obtain ⟨t, -, -, hf, -⟩ := resolve_eq_ok_iff.mp h
  exact hf

theorem linkTarget?_eq_some_iff {t : WideText} : fs.linkTarget? p = some t ↔
    ∃ l, fs.locate .itself p = .ok ⟨l, some (.link t)⟩ := by
  unfold linkTarget?
  split
  · rename_i l t' hl
    simp [hl]
  · rename_i hno
    simp only [reduceCtorEq, false_iff, not_exists]
    exact fun l hl => hno l t hl

theorem fromRoot_of_absolute (ha : p.isAbsolute = true) (hn : ∀ n ∈ p.names, Proper n) :
    fs.fromRoot p = p := by
  rw [fromRoot, Path.join, if_pos ha, Path.collapsed_of_proper hn]

section Errors

variable {e : FileError} {fuel : ℕ} {t : WideText}

end Errors

section Steps

/-- What working off one name does: links met before are known, and others are worked off first. -/
inductive Takes (jump : Seen → Path → WideText → Except FileError Trace) (fs : FileSystem) :
    Seen → Path → FileName → Seen → Path → Prop
  | stay {seen : Seen} {p : Path} {n : FileName} : n = [] ∨ n = dot → Takes jump fs seen p n seen p
  | climb {seen : Seen} {p : Path} : Takes jump fs seen p dotDot seen (up p)
  | pass {seen : Seen} {p : Path} {n : FileName} : ¬ (n = [] ∨ n = dot) → n ≠ dotDot →
      (p.child n).fault? = none → fs.linkTarget? (p.child n) = none →
      Takes jump fs seen p n seen (p.child n)
  | known {seen : Seen} {p q : Path} {n : FileName} {t : WideText} : ¬ (n = [] ∨ n = dot) →
      n ≠ dotDot → (p.child n).fault? = none → fs.linkTarget? (p.child n) = some t →
      Seen.get? (p.child n) seen = some (some q) → Takes jump fs seen p n seen q
  | follow {seen seen' : Seen} {p q : Path} {n : FileName} {t : WideText} : ¬ (n = [] ∨ n = dot) →
      n ≠ dotDot → (p.child n).fault? = none → fs.linkTarget? (p.child n) = some t →
      Seen.get? (p.child n) seen = none →
      jump ((p.child n, none) :: seen) p t = .ok (.reached q seen') →
      Takes jump fs seen p n ((p.child n, some q) :: seen') q

theorem Takes.traceWith_cons (h : Takes jump fs seen p n seen' q) (r : List FileName) :
    traceWith jump fs seen p (n :: r) = traceWith jump fs seen' q r := by
  cases h with
  | stay hs => rw [traceWith, if_pos hs]
  | climb => rw [traceWith, if_neg (by decide), if_pos rfl]
  | pass hs hu hf hl =>
    rw [traceWith, if_neg hs, if_neg hu]
    simp only [hf, hl]
  | known hs hu hf hl hk =>
    rw [traceWith, if_neg hs, if_neg hu]
    simp only [hf, hl, hk]
  | follow hs hu hf hl hk hj =>
    rw [traceWith, if_neg hs, if_neg hu]
    simp only [hf, hl, hk, hj]

theorem takes_of_reached (h : traceWith jump fs seen p (n :: r) = .ok (.reached q seen')) :
    ∃ s k, Takes jump fs seen p n s k ∧ traceWith jump fs s k r = .ok (.reached q seen') := by
  unfold traceWith at h
  split at h
  · rename_i hs
    exact ⟨_, _, .stay hs, h⟩
  rename_i hs
  split at h
  · rename_i hu
    subst hu
    exact ⟨_, _, .climb, h⟩
  rename_i hu
  simp only at h
  split at h
  · cases h
  rename_i hf
  split at h
  · rename_i hl
    exact ⟨_, _, .pass hs hu hf hl, h⟩
  rename_i hl
  split at h
  · rename_i hk
    exact ⟨_, _, .known hs hu hf hl hk, h⟩
  · cases h
  · rename_i hk
    split at h
    · cases h
    · cases h
    · rename_i hj
      exact ⟨_, _, .follow hs hu hf hl hk hj, h⟩

end Steps

section Names

theorem traceWith_skip (h : n = [] ∨ n = dot) :
    traceWith jump fs seen p (n :: r) = traceWith jump fs seen p r := (Takes.stay h).traceWith_cons r

theorem traceWith_climb :
    traceWith jump fs seen p (dotDot :: r) = traceWith jump fs seen (up p) r :=
  Takes.climb.traceWith_cons r

theorem traceWith_pass (hn : Proper n) (hf : (p.child n).fault? = none)
    (hl : fs.linkTarget? (p.child n) = none) :
    traceWith jump fs seen p (n :: r) = traceWith jump fs seen (p.child n) r :=
  (Takes.pass (not_or.mpr ⟨hn.ne_nil, hn.ne_dot⟩) hn.ne_dotDot hf hl).traceWith_cons r

theorem reached_filter_iff : traceWith jump fs seen p (names.filter (· ≠ [])) = .ok (.reached q seen') ↔
    traceWith jump fs seen p names = .ok (.reached q seen') := by
  induction names generalizing seen p with
  | nil => rfl
  | cons n r ih =>
    by_cases hn : n = []
    · rw [List.filter_cons_of_neg (by simp [hn]), ih, traceWith_skip (.inl hn)]
    · rw [List.filter_cons_of_pos (by simp [hn])]
      constructor
      · intro h
        obtain ⟨s, k, hstep, hrest⟩ := takes_of_reached h
        rw [hstep.traceWith_cons]
        exact ih.mp hrest
      · intro h
        obtain ⟨s, k, hstep, hrest⟩ := takes_of_reached h
        rw [hstep.traceWith_cons]
        exact ih.mpr hrest

theorem traceWith_append_of_reached (h : traceWith jump fs seen p names = .ok (.reached q seen'))
    (r : List FileName) : traceWith jump fs seen p (names ++ r) = traceWith jump fs seen' q r := by
  induction names generalizing seen p with
  | nil =>
    cases h
    rfl
  | cons n ns ih =>
    obtain ⟨s, k, hstep, hrest⟩ := takes_of_reached h
    rw [List.cons_append, hstep.traceWith_cons, ih hrest]

theorem up_above (k : ℕ) : up ⟨.current, List.replicate k dotDot⟩ =
    ⟨.current, List.replicate (k + 1) dotDot⟩ := by
  unfold up
  cases k with
  | zero => rfl
  | succ k =>
    rw [List.getLast?_replicate]
    simp [Path.isAbsolute, Path.child, List.replicate_succ']

theorem traceWith_climbs (j k : ℕ) :
    traceWith jump fs seen ⟨.current, List.replicate j dotDot⟩ (List.replicate k dotDot ++ r) =
      traceWith jump fs seen ⟨.current, List.replicate (j + k) dotDot⟩ r := by
  induction k generalizing j with
  | zero => rfl
  | succ k ih =>
    rw [List.replicate_succ, List.cons_append, traceWith_climb, up_above, ih]
    congr 3
    omega

def origin (p : Path) : Path := ⟨if p.isAbsolute then .root else .current, []⟩

theorem traceWith_parts_joinWith (h : ∀ n ∈ names, n ≠ [] ∧ n ≠ dot ∧ slash ∉ n) :
    traceWith jump fs seen p (Path.parts (Text.joinWith [slash] names)) =
      traceWith jump fs seen p names := by
  cases names with
  | nil => exact traceWith_skip (.inl rfl)
  | cons n r => rw [Path.parts, Text.splitOn_joinWith (by simp) fun m hm => (h m hm).2.2]

theorem traceWith_parts_slash (t : WideText) :
    traceWith jump fs seen p (Path.parts (slash :: t)) =
      traceWith jump fs seen p (Path.parts t) := by
  have hs : Path.parts (slash :: t) = [] :: Path.parts t :=
    Text.splitOn_append (s := []) List.not_mem_nil t
  rw [hs]
  exact traceWith_skip (.inl rfl)

theorem startsAtRoot_text (h : p.Tidy) : startsAtRoot p.text = p.isAbsolute := by
  obtain ⟨a, ns⟩ := p
  cases a with
  | root => rfl
  | doubleRoot => rfl
  | current =>
    have hhead := Path.head_joinWith h
    unfold Path.text
    simp only
    split
    · rfl
    · cases hj : Path.anchorText .current ++ Text.joinWith [slash] ns with
      | nil => rfl
      | cons c t =>
        rw [show Text.joinWith [slash] ns = c :: t from hj] at hhead
        have hc : c ≠ slash := by
          intro hc
          rw [hc, List.takeWhile_cons_of_pos (by simp)] at hhead
          cases hhead
        simp [startsAtRoot, hc, Path.isAbsolute]

theorem traceWith_parts_text (h : p.Tidy) :
    traceWith jump fs seen q (Path.parts p.text) = traceWith jump fs seen q p.names := by
  obtain ⟨a, ns⟩ := p
  cases a with
  | root =>
    rw [show Path.text ⟨.root, ns⟩ = slash :: Text.joinWith [slash] ns from rfl,
      traceWith_parts_slash, traceWith_parts_joinWith h]
  | doubleRoot =>
    rw [show Path.text ⟨.doubleRoot, ns⟩ = slash :: slash :: Text.joinWith [slash] ns from rfl,
      traceWith_parts_slash, traceWith_parts_slash, traceWith_parts_joinWith h]
  | current =>
    unfold Path.text
    simp only
    split
    · rename_i he
      have hj : Text.joinWith [slash] ns = [] := by simpa [Path.anchorText] using he
      rw [← traceWith_parts_joinWith h, hj]
      exact (traceWith_skip (.inr rfl)).trans (traceWith_skip (.inl rfl)).symm
    · exact traceWith_parts_joinWith h

theorem traceFuel_pos (fs : FileSystem) : linkBudget < fs.traceFuel := by
  have h : longestPath ≤ (fs.root.linkCount + 1) * (fs.here.length + 2 + longestPath) :=
    Nat.le_trans (Nat.le_add_left _ _) (Nat.le_mul_of_pos_left _ (Nat.succ_pos _))
  exact Nat.lt_of_lt_of_le (by decide) h

theorem trace_eq (h : p.Tidy) : fs.trace p =
    traceWith (fs.traceTarget (fs.traceFuel - 1)) fs [] (origin p) p.names := by
  obtain ⟨fuel, hfuel⟩ : ∃ fuel, fs.traceFuel = fuel + 1 :=
    ⟨fs.traceFuel - 1, by have := traceFuel_pos fs; omega⟩
  rw [trace, hfuel, traceTarget, traceWith_parts_text h, startsAtRoot_text h]
  cases ha : p.isAbsolute <;> simp [origin, ha]

theorem resolve_congr (hp : p.Tidy) (hq : q.Tidy) (ha : p.isAbsolute = q.isAbsolute)
    (hn : p.names = q.names) : fs.resolve p = fs.resolve q := by
  have htrace : fs.trace p = fs.trace q := by
    rw [trace_eq hp, trace_eq hq, origin, origin, ha, hn]
  rw [resolve_eq, resolve_eq, htrace]

theorem trace_child (ht : p.Tidy) (h : fs.trace p = .ok (.reached q seen)) (hn : Proper n)
    (hf : (q.child n).fault? = none) (hl : fs.linkTarget? (q.child n) = none) :
    fs.trace (p.child n) = .ok (.reached (q.child n) seen) := by
  rw [trace_eq ht] at h
  rw [trace_eq (ht.child ⟨hn.ne_nil, hn.ne_dot, hn.no_slash⟩)]
  exact (traceWith_append_of_reached h [n]).trans (traceWith_pass hn hf hl)

end Names

end ParserRelay.FileSystem
