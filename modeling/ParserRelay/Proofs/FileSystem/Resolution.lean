import ParserRelay.Proofs.FileSystem.Trace
/-!
# Resolution follows the system

A path along which the system walks to a node resolves to a path without links that leads there. A
link is worked off from what is left of the walk behind it, so none is met while it is worked off.
-/
namespace ParserRelay.FileSystem
open ParserRelay.Path (dot dotDot slash Proper)

variable {fs : FileSystem} {ending : Ending} {b c fuel : ℕ} {l m : Location} {p q : Path}
  {n : FileName} {names r : List FileName} {seen seen' : Seen} {t : WideText} {x : Node}

/-- The system takes the path of every node, as it takes what stands in a link. -/
structure InReach (fs : FileSystem) : Prop where
  short : ∀ l x, fs.node? l = some x → ¬ longestPath < (Path.text ⟨.root, l⟩).systemLength
  usable : ∀ l t, fs.node? l = some (.link t) → ∀ c ∈ t, c.usable

structure Piece (n : FileName) : Prop where
  no_slash : slash ∉ n
  usable : ∀ c ∈ n, c.usable

section Spelling

/-- The names of a path lead to a location if none of them is a link. -/
structure Spells (p : Path) (l : Location) : Prop where
  anchor : p.anchor = .root
  proper : ∀ n ∈ p.names, Proper n ∧ ¬ longestName < n.systemLength
  fault : p.fault? = none
  leads : descent [] p.names = l

namespace Spells

theorem root : Spells ⟨.root, []⟩ [] := ⟨rfl, by simp, by decide, rfl⟩

theorem isAbsolute (h : Spells p l) : p.isAbsolute = true := by simp [Path.isAbsolute, h.anchor]

theorem child (h : Spells p l) (hn : Proper n) (hs : ¬ longestName < n.systemLength)
    (hc : ∀ c ∈ n, c.usable) : Spells (p.child n) (under l n) where
  anchor := h.anchor
  proper := by
    intro k hk
    rcases List.mem_append.mp hk with hk | hk
    · exact h.proper k hk
    · rw [List.mem_singleton.mp hk]
      exact ⟨hn, hs⟩
  fault := Path.fault?_child h.fault hc
  leads := by rw [Path.child, descent_concat, h.leads]

theorem up (h : Spells p l) : Spells (up p) l.dropLast := by
  rw [FileSystem.up, if_pos h.isAbsolute]
  refine ⟨h.anchor, fun k hk => h.proper k (p.names.dropLast_subset hk), ?_, ?_⟩
  · exact Path.fault?_of_mem_ancestry (parent_mem_ancestry p) h.fault
  · rw [← h.leads, Path.parent, descent, descent]
    simp

theorem behind (h : Spells p l) (t : WideText) :
    Spells (if startsAtRoot t then ⟨.root, []⟩ else p) (behind l t) := by
  unfold FileSystem.behind
  split
  · exact root
  · exact h

theorem walks_iff (h : Spells p l) (he : ending ≠ .written) (hd : fs.node? l = some .directory)
    {x : Place} : Walks fs.root ending b [] (p.names ++ r) x ↔ Walks fs.root ending b l r x := by
  have hd' : fs.root.node? (descent [] p.names) = some .directory := by
    rw [h.leads]
    exact hd
  constructor
  · intro hw
    have hpast := hw.past (fun k hk => (h.proper k hk).1) hd'
    rwa [h.leads] at hpast
  · intro hw
    rw [← h.leads] at hw
    exact hw.through he h.proper hd'

end Spells

theorem systemLength_text_map (ns : List FileName) :
    (Path.text ⟨.root, ns.map WideText.systemForm⟩).systemLength =
      (Path.text ⟨.root, ns⟩).systemLength := by
  have hjoin : WideText.toSystem (Text.joinWith [slash] (ns.map WideText.systemForm)) =
      WideText.toSystem (Text.joinWith [slash] ns) := by
    induction ns with
    | nil => rfl
    | cons n r ih =>
      cases r with
      | nil => exact WideText.toSystem_ofSystem _
      | cons k r =>
        simp only [List.map_cons, Text.joinWith, WideText.toSystem_append] at ih ⊢
        rw [ih, WideText.systemForm, WideText.toSystem_ofSystem]
  have htext (ks : List FileName) : Path.text ⟨.root, ks⟩ = [slash] ++ Text.joinWith [slash] ks := rfl
  rw [WideText.systemLength, WideText.systemLength, htext, htext, WideText.toSystem_append,
    WideText.toSystem_append, hjoin]

theorem Spells.short (hr : fs.InReach) (h : Spells p l) (hx : fs.node? l = some x) :
    ¬ longestPath < p.text.systemLength := by
  obtain ⟨a, ns⟩ := p
  cases h.anchor
  have hl : l = ns.map WideText.systemForm := h.leads.symm
  have hs := hr.short l x hx
  rwa [hl, systemLength_text_map] at hs

theorem Spells.locate (hr : fs.InReach) (h : Spells p l) (hx : fs.node? l = some x)
    (he : ending ≠ .written) (hl : ∀ t, x = .link t → ending = .itself) :
    fs.locate ending p = .ok ⟨l, some x⟩ := by
  refine locate_iff.mpr ⟨h.short hr hx, ?_⟩
  rw [startOf, if_pos h.isAbsolute]
  rcases List.eq_nil_or_concat' p.names with hn | ⟨ns, n, hn⟩
  · have hroot : l = [] := by
      rw [← h.leads, hn]
      rfl
    rw [hn, ← hx, hroot]
    exact .arrive linkBudget []
  · have hunder : under (descent [] ns) n = l := by rw [← descent_concat, ← hn, h.leads]
    have hd : fs.root.node? (descent [] ns) = some .directory :=
      Folder.directory_above (l := descent [] ns) (hunder ▸ List.prefix_append _ _) hx (by
        rw [← hunder]
        simp [under])
    have hnames : ∀ k ∈ ns ++ [n], Proper k ∧ ¬ longestName < k.systemLength := hn ▸ h.proper
    obtain ⟨hlast, hshort⟩ := hnames n (by simp)
    have hu : LooksUp fs.root ending (descent [] ns) n [] := ⟨hd,
      not_or.mpr ⟨hlast.ne_dot, hlast.ne_nil⟩, hlast.ne_dotDot, fun hw => he hw.1, hshort⟩
    have hw := Walks.last (b := linkBudget) hu fun t ht => by
      rw [hunder, show fs.root.node? l = _ from hx] at ht
      exact hl t (Option.some.inj ht)
    rw [hunder, show fs.root.node? l = _ from hx] at hw
    rw [hn]
    exact hw.through he (fun k hk => hnames k (List.mem_append_left _ hk)) hd

theorem Spells.stat (hr : fs.InReach) (h : Spells p l) (hx : fs.node? l = some x)
    (hl : ∀ t, x ≠ .link t) : fs.stat p = .ok x := by
  have hfound : fs.locate .followed p = .ok ⟨l, some x⟩ :=
    h.locate hr hx (by decide) fun t ht => absurd ht (hl t)
  rw [FileSystem.stat, hfound]

theorem Spells.linkTarget? (hr : fs.InReach) (h : Spells p l) (hx : fs.node? l = some x) :
    fs.linkTarget? p = some t ↔ x = .link t := by
  rw [linkTarget?_eq_some_iff, h.locate hr hx (by decide) fun _ _ => rfl]
  simp

end Spelling

section Links

theorem Walks.unique {x y : Place} (h : Walks fs.root ending b l names x)
    (h' : Walks fs.root ending c l names y) : x = y := by
  have hx := walk_of_walks (h.more (Nat.le_max_left b c))
  have hy := walk_of_walks (h'.more (Nat.le_max_right b c))
  rw [hx] at hy
  exact Except.ok.inj hy

theorem Walks.at_name (h : Walks fs.root .followed b l (n :: r) ⟨m, some x⟩) :
    ∃ k y, Walks fs.root .followed b l [n] ⟨k, some y⟩ ∧
      Walks fs.root .followed b k r ⟨m, some x⟩ := by
  cases r with
  | nil =>
    have hm : fs.root.node? m = some x := by
      have hd : fs.root.node? l = some .directory := by
        by_contra hne
        cases (h.stuck hne).1
      exact (h.sound hd).node.symm
    exact ⟨m, x, h, hm ▸ .arrive b m⟩
  | cons k r =>
    have hsplit : Walks fs.root .followed b l ([n] ++ k :: r) ⟨m, some x⟩ := h
    obtain ⟨d, hd, hr⟩ := hsplit.split
    exact ⟨d, .directory, hd, hr⟩

theorem Walks.followed_link {p : Place} (hu : LooksUp fs.root .followed l n r)
    (hl : fs.root.node? (under l n) = some (.link t))
    (h : Walks fs.root .followed b l (n :: r) p) :
    ∃ c, b = c + 1 ∧ Walks fs.root .followed c (behind l t) (steps t ++ r) p := by
  cases h with
  | stay _ hs _ => exact absurd hs hu.stays
  | climb _ _ => exact absurd rfl hu.climbs
  | free _ hf => rw [hl] at hf; cases hf
  | halt _ _ he => cases he
  | follow _ hl' _ hw =>
    rw [hl] at hl'
    cases hl'
    exact ⟨_, rfl, hw⟩
  | enter _ hx hne _ =>
    rw [hl] at hx
    exact absurd (Option.some.inj hx).symm (hne t)

/-- Behind a link the system walks to where the link leads within a budget that the link itself would
not be walked with. -/
theorem Walks.behind_link (hu : LooksUp fs.root .followed l n [])
    (hl : fs.root.node? (under l n) = some (.link t))
    (h : Walks fs.root .followed b l [n] ⟨m, some x⟩) :
    ∃ c < b, Walks fs.root .followed c (behind l t) (steps t) ⟨m, some x⟩ ∧
      ∀ k y, ¬ Walks fs.root .followed c l [n] ⟨k, some y⟩ := by
  induction b with
  | zero =>
    obtain ⟨c, hc, -⟩ := h.followed_link hu hl
    cases hc
  | succ c ih =>
    by_cases hc : ∃ k y, Walks fs.root .followed c l [n] ⟨k, some y⟩
    · obtain ⟨k, y, hw⟩ := hc
      cases hw.unique h
      obtain ⟨c', hlt, hrest⟩ := ih hw
      exact ⟨c', Nat.lt_succ_of_lt hlt, hrest⟩
    · obtain ⟨c', hc', hw⟩ := h.followed_link hu hl
      cases hc'
      rw [List.append_nil] at hw
      exact ⟨c, Nat.lt_succ_self c, hw, fun k y hw => hc ⟨k, y, hw⟩⟩

end Links

section Following

/-- Every link that was worked off led to where the system walks along its path. -/
def Seen.Faithful (fs : FileSystem) (seen : Seen) : Prop :=
  ∀ k q, Seen.get? k seen = some (some q) → ∃ m b x, Spells q m ∧
    Walks fs.root .followed b [] k.names ⟨m, some x⟩

/-- No link that is being worked off could be walked within the budget. -/
def Seen.Waiting (fs : FileSystem) (b : ℕ) (seen : Seen) : Prop :=
  ∀ k, Seen.get? k seen = some none → ∀ m x, ¬ Walks fs.root .followed b [] k.names ⟨m, some x⟩

def Seen.SameOpen (seen seen' : Seen) : Prop :=
  ∀ k, Seen.get? k seen' = some none ↔ Seen.get? k seen = some none

theorem Seen.get?_cons (k p : Path) (known : Option Path) (seen : Seen) :
    Seen.get? k ((p, known) :: seen) = if p = k then some known else Seen.get? k seen := rfl

theorem Seen.Faithful.opened (h : Seen.Faithful fs seen) (p : Path) :
    Seen.Faithful fs ((p, none) :: seen) := by
  intro k q hk
  rw [Seen.get?_cons] at hk
  split at hk
  · cases hk
  · exact h k q hk

theorem Seen.Faithful.closed (h : Seen.Faithful fs seen) (hq : Spells q m)
    (hw : Walks fs.root .followed b [] p.names ⟨m, some x⟩) :
    Seen.Faithful fs ((p, some q) :: seen) := by
  intro k q' hk
  rw [Seen.get?_cons] at hk
  split at hk
  · rename_i he
    cases hk
    exact ⟨m, b, x, hq, he ▸ hw⟩
  · exact h k q' hk

theorem Seen.Waiting.opened (h : Seen.Waiting fs b seen) (hc : c < b)
    (hp : ∀ m x, ¬ Walks fs.root .followed c [] p.names ⟨m, some x⟩) :
    Seen.Waiting fs c ((p, none) :: seen) := by
  intro k hk m x hw
  rw [Seen.get?_cons] at hk
  split at hk
  · rename_i he
    exact hp m x (he ▸ hw)
  · exact h k hk m x (hw.more (Nat.le_of_lt hc))

theorem Seen.Waiting.same (h : Seen.Waiting fs b seen) (hs : Seen.SameOpen seen seen') :
    Seen.Waiting fs b seen' := fun k hk => h k ((hs k).mp hk)

theorem Seen.SameOpen.closed (hp : Seen.get? p seen = none)
    (h : Seen.SameOpen ((p, none) :: seen) seen') (q : Path) :
    Seen.SameOpen seen ((p, some q) :: seen') := by
  intro k
  rw [Seen.get?_cons]
  split
  · rename_i he
    subst he
    simp [hp]
  · rename_i he
    rw [h k, Seen.get?_cons, if_neg he]

def Follows (fs : FileSystem) (b : ℕ) : Prop :=
  ∀ {fuel l m p names seen x}, b ≤ fuel → Spells p l → (∀ n ∈ names, Piece n) →
    Walks fs.root .followed b l names ⟨m, some x⟩ → Seen.Faithful fs seen → Seen.Waiting fs b seen →
    ∃ q seen', traceWith (fs.traceTarget fuel) fs seen p names = .ok (.reached q seen') ∧
      Spells q m ∧ Seen.Faithful fs seen' ∧ Seen.SameOpen seen seen'

theorem piece_of_steps (ht : ∀ c ∈ t, c.usable) (hn : n ∈ steps t) : Piece n := by
  rcases List.mem_append.mp hn with hn | hn
  · obtain ⟨hs, hc⟩ := Text.splitOn_pieces (List.mem_filter.mp hn).1
    exact ⟨hs, fun c hm => ht c (hc c hm)⟩
  · have hnil : n = [] := by
      split at hn
      · exact List.mem_singleton.mp hn
      · cases hn
    rw [hnil]
    exact ⟨List.not_mem_nil, fun c hc => by cases hc⟩

theorem filter_steps (t : WideText) :
    (steps t).filter (· ≠ []) = (Path.parts t).filter (· ≠ []) := by
  unfold steps
  split <;> simp [List.filter_filter]

theorem takes_link (hr : fs.InReach) (ih : ∀ c < b, Follows fs c) (hfuel : b ≤ fuel)
    (hp : Spells p l) (hn : Piece n) (hu : LooksUp fs.root .followed l n [])
    (hl : fs.node? (under l n) = some (.link t))
    (hw : Walks fs.root .followed b l [n] ⟨m, some x⟩)
    (hseen : Seen.Faithful fs seen) (hwait : Seen.Waiting fs b seen) :
    ∃ q seen', Takes (fs.traceTarget fuel) fs seen p n seen' q ∧ Spells q m ∧
      Seen.Faithful fs seen' ∧ Seen.SameOpen seen seen' := by
  obtain ⟨hdot, hnil⟩ := not_or.mp hu.stays
  have hstays : ¬ (n = [] ∨ n = dot) := not_or.mpr ⟨hnil, hdot⟩
  have hchild := hp.child ⟨hnil, hdot, hu.climbs, hn.no_slash⟩ hu.short hn.usable
  have hlink : fs.linkTarget? (p.child n) = some t := (hchild.linkTarget? hr hl).mpr rfl
  have hroot {c : ℕ} {y : Place} : Walks fs.root .followed c [] (p.child n).names y ↔
      Walks fs.root .followed c l [n] y := hp.walks_iff (by decide) hu.directory
  cases hk : Seen.get? (p.child n) seen with
  | none =>
    -- The link is not met again behind it: there the budget is not enough for it.
    obtain ⟨c, hc, hbehind, hno⟩ := hw.behind_link hu hl
    obtain ⟨fuel, rfl⟩ : ∃ f, fuel = f + 1 := ⟨fuel - 1, by omega⟩
    have hpieces : ∀ k ∈ steps t, Piece k := fun k hk => piece_of_steps (hr.usable _ t hl) hk
    have henough : c ≤ fuel := by omega
    obtain ⟨q, seen', htrace, hq, hfaithful, hopen⟩ := ih c hc henough (hp.behind t) hpieces
      hbehind (hseen.opened _) (hwait.opened hc fun k y hw => hno k y (hroot.mp hw))
    have hjump : fs.traceTarget (fuel + 1) ((p.child n, none) :: seen) p t =
        .ok (.reached q seen') := by
      rw [traceTarget]
      rw [← reached_filter_iff, filter_steps, reached_filter_iff] at htrace
      exact htrace
    exact ⟨q, _, .follow hstays hu.climbs hchild.fault hlink hk hjump, hq,
      hfaithful.closed hq (hroot.mpr hw), hopen.closed hk q⟩
  | some known =>
    cases known with
    | none => exact absurd (hroot.mpr hw) (hwait _ hk m x)
    | some q =>
      obtain ⟨m', c, y, hq, hwalk⟩ := hseen _ q hk
      cases (hroot.mp hwalk).unique hw
      exact ⟨q, seen, .known hstays hu.climbs hchild.fault hlink hk, hq, hseen, fun _ => Iff.rfl⟩

theorem follows_of_less (hr : fs.InReach) (ih : ∀ c < b, Follows fs c) : Follows fs b := by
  intro fuel l m p names seen x hfuel hp hnames hw hseen hwait
  induction names generalizing l p seen with
  | nil =>
    obtain rfl : m = l := congrArg Place.location hw.arrived
    exact ⟨p, seen, rfl, hp, hseen, fun _ => Iff.rfl⟩
  | cons n r ihr =>
    have hrest : ∀ k ∈ r, Piece k := fun k hk => hnames k (List.mem_cons_of_mem n hk)
    have hn := hnames n List.mem_cons_self
    cases hw with
    | stay _ hs hw =>
      rw [traceWith_skip hs.symm]
      exact ihr hp hrest hw hseen hwait
    | climb _ hw =>
      rw [traceWith_climb]
      exact ihr hp.up hrest hw hseen hwait
    | halt _ _ he => cases he
    | @enter _ _ _ _ y _ hu hy hne hw =>
      obtain ⟨hdot, hnil⟩ := not_or.mp hu.stays
      have hproper : Proper n := ⟨hnil, hdot, hu.climbs, hn.no_slash⟩
      have hchild := hp.child hproper hu.short hn.usable
      have hlink : fs.linkTarget? (p.child n) = none := by
        by_contra hl
        obtain ⟨t, ht⟩ := Option.ne_none_iff_exists'.mp hl
        exact hne t ((hchild.linkTarget? hr hy).mp ht)
      rw [traceWith_pass hproper hchild.fault hlink]
      exact ihr hchild hrest hw hseen hwait
    | @follow b _ _ _ t _ hu hl hne hw =>
      have hlast : LooksUp fs.root .followed l n [] := { hu with accepted := by simp }
      obtain ⟨k, y, hfirst, hnext⟩ := (Walks.follow hu hl hne hw).at_name
      obtain ⟨q, seen', hstep, hq, hfaithful, hopen⟩ :=
        takes_link hr ih hfuel hp hn hlast hl hfirst hseen hwait
      obtain ⟨q', seen'', htrace, hq', hfaithful', hopen'⟩ :=
        ihr hq hrest hnext hfaithful (hwait.same hopen)
      exact ⟨q', seen'', (hstep.traceWith_cons r).trans htrace, hq', hfaithful',
        fun k => (hopen' k).trans (hopen k)⟩

theorem follows (hr : fs.InReach) (b : ℕ) : Follows fs b := by
  induction b using Nat.strongRecOn with
  | ind b ih => exact follows_of_less hr ih

end Following

/-- What a path resolves to leads without links to where the system walks along the path. -/
theorem resolve_follows (hr : fs.InReach) (ha : p.isAbsolute = true) (ht : p.Tidy)
    (hf : p.fault? = none) (h : fs.stat p = .ok x) :
    ∃ q l seen, fs.trace p = .ok (.reached q seen) ∧ fs.resolve p = .ok q ∧ Spells q l ∧
      fs.locate .followed p = .ok ⟨l, some x⟩ := by
  obtain ⟨l, hl⟩ := locate_of_stat h
  have hw := (locate_iff.mp hl).2
  rw [startOf, if_pos ha] at hw
  have hnames : ∀ n ∈ p.names, Piece n := fun n hn =>
    ⟨(ht n hn).2.2, Path.fault?_eq_none_iff.mp hf n hn⟩
  have hfuel : linkBudget ≤ fs.traceFuel - 1 := Nat.le_sub_one_of_lt (traceFuel_pos fs)
  have hknown : Seen.Faithful fs [] := fun k q hk => by cases hk
  have hopen : Seen.Waiting fs linkBudget [] := fun k hk => by cases hk
  obtain ⟨q, seen, htrace, hq, -, -⟩ :=
    follows hr linkBudget hfuel Spells.root hnames hw hknown hopen
  rw [← show origin p = ⟨.root, []⟩ by rw [origin, if_pos ha], ← trace_eq ht] at htrace
  have hx : fs.node? l = some x := (sound_of_locate hl).node.symm
  have hstat := hq.stat hr hx fun t hx => not_link_of_locate hl (by decide) t (congrArg some hx)
  have hroot : fs.fromRoot q = q := fromRoot_of_absolute hq.isAbsolute fun n hn => (hq.proper n hn).1
  exact ⟨q, l, seen, htrace, resolve_eq_ok_iff.mpr ⟨_, htrace, hroot, hq.fault, by simp [hstat]⟩, hq,
    hl⟩

theorem Walks.node_of_name (hn : Proper n) (h : Walks fs.root .followed b l [n] ⟨m, some x⟩) :
    ∃ y, fs.node? (under l n) = some y ∧ ¬ longestName < n.systemLength := by
  cases h with
  | stay _ hs _ => exact absurd hs (not_or.mpr ⟨hn.ne_dot, hn.ne_nil⟩)
  | climb _ _ => exact absurd rfl hn.ne_dotDot
  | halt hu hl _ => exact ⟨_, hl, hu.short⟩
  | follow hu hl _ _ => exact ⟨_, hl, hu.short⟩
  | enter hu hy _ _ => exact ⟨_, hy, hu.short⟩

theorem resolve_child_follows (hr : fs.InReach) (ha : p.isAbsolute = true) (ht : p.Tidy)
    (hn : Proper n) (hf : (p.child n).fault? = none) (h : fs.stat (p.child n) = .ok x) :
    ∃ d f, fs.resolve p = .ok d ∧ fs.resolve (p.child n) = .ok f ∧ fs.stat d = .ok .directory ∧
      fs.stat (d.child n) = .ok x ∧ fs.stat f = .ok x ∧
      (fs.linkTarget? (d.child n) = none → f = d.child n) := by
  have hca : (p.child n).isAbsolute = true := ha
  have htidy : (p.child n).Tidy := ht.child ⟨hn.ne_nil, hn.ne_dot, hn.no_slash⟩
  have hpf := Path.fault?_of_mem_ancestry (mem_ancestry_child p n) hf
  obtain ⟨d, l, seen, htrace, hd, hdspells, hdl⟩ :=
    resolve_follows hr ha ht hpf (stat_of_child h)
  obtain ⟨f, m, seen', hftrace, hfr, hfspells, hfl⟩ := resolve_follows hr hca htidy hf h
  -- The walk along the longer path passes the directory that the shorter one leads to.
  obtain ⟨k, hk, hlast⟩ := (locate_iff.mp hfl).2.split
  cases hk.unique (locate_iff.mp hdl).2
  obtain ⟨y, hy, hshort⟩ := hlast.node_of_name hn
  have hdir : fs.node? l = some .directory := (sound_of_locate hdl).node.symm
  have hx : fs.node? m = some x := (sound_of_locate hfl).node.symm
  have hnotLink : ∀ t, x ≠ .link t :=
    fun t hx => not_link_of_locate hfl (by decide) t (congrArg some hx)
  have hchild := hdspells.child hn hshort (Path.fault?_eq_none_iff.mp hf n (by simp [Path.child]))
  have hdn : fs.locate .followed (d.child n) = .ok ⟨m, some x⟩ := by
    refine locate_iff.mpr ⟨hchild.short hr hy, ?_⟩
    rw [startOf, if_pos hchild.isAbsolute]
    exact (hdspells.walks_iff (by decide) hdir).mpr hlast
  refine ⟨d, f, hd, hfr, hdspells.stat hr hdir (by simp), stat_of_locate hdn hnotLink,
    hfspells.stat hr hx hnotLink, fun hl => ?_⟩
  cases hftrace.symm.trans (trace_child ht htrace hn hchild.fault hl)
  rfl

section Nodes

def linkText : Node → WideText
  | .link t => t
  | .file _ | .directory => []

theorem entryNodes_subset {f : Folder} {e : Entry} (h : Folder.child? n f = some e) (above : Location) :
    Folder.entryNodes (above ++ [n]) e ⊆ Folder.nodes above f := by
  induction f with
  | nil => cases h
  | cons c r ih =>
    obtain ⟨k, e'⟩ := c
    rw [Folder.child?] at h
    rw [Folder.nodes]
    split at h
    · rename_i hk
      cases h
      rw [hk]
      exact List.subset_append_left _ _
    · exact List.Subset.trans (ih h) (List.subset_append_right _ _)

theorem mem_entryNodes {e : Entry} (h : (Folder.below (some e) l).map Entry.node = some x)
    (above : Location) : (above ++ l, x) ∈ Folder.entryNodes above e := by
  induction l generalizing e above with
  | nil =>
    cases h
    cases e <;> simp [Folder.entryNodes, Entry.node]
  | cons n r ih =>
    cases e with
    | file c => cases h
    | link t => cases h
    | folder f =>
      rw [Folder.below] at h
      cases hc : Folder.child? n f with
      | none =>
        rw [hc] at h
        cases r <;> cases h
      | some e =>
        rw [hc] at h
        have hmem := entryNodes_subset hc above (ih h (above ++ [n]))
        rw [List.append_assoc] at hmem
        rw [Folder.entryNodes]
        exact List.mem_cons_of_mem _ hmem

theorem inReach_of_nodes (h : ∀ e ∈ Folder.entryNodes [] (.folder fs.root),
    ¬ longestPath < (Path.text ⟨.root, e.1⟩).systemLength ∧ ∀ c ∈ linkText e.2, c.usable) :
    fs.InReach where
  short l x hx := (h (l, x) (mem_entryNodes hx [])).1
  usable l t hx := (h (l, .link t) (mem_entryNodes hx [])).2

end Nodes

end ParserRelay.FileSystem
