import ParserRelay.Proofs.Json.Longest
/-!
# The bounds of a dialect

The bounds on numbers and on nesting do nothing but refuse. On a text that keeps within them the
reader takes what the grammar derives without any bound, and a fault that speaks of a bound is met
only on a text that passes it. The reader's fuel, which the grammar knows nothing of, never runs out.
-/
namespace ParserRelay.Json

/-- The grammar without bounds on numbers and nesting. -/
def Derives (halves : Bool) (t : WideText) (v : Json) : Prop :=
  ∃ nesting length, Document ⟨halves, nesting, length⟩ t v

variable {d e : Dialect} {document t r u : WideText} {k room loose fuel : ℕ} {v : Json}
  {vs : List Json} {ms : Members}

theorem value_leads (h : value d room fuel t = .ok (v, r)) :
    ∃ c u, t = .char c :: u ∧ Leads c := by
  obtain ⟨w, rfl, hv⟩ := (sound d fuel).value h
  obtain ⟨c, x, rfl, hc⟩ := hv.cons
  exact ⟨c, x ++ r, rfl, hc⟩

theorem items_leads (h : items d room fuel t = .ok (vs, r)) : ∃ c u, t = .char c :: u ∧ Leads c := by
  cases fuel with
  | zero => cases h
  | succ fuel =>
    rw [items.eq_2] at h
    split at h
    · cases h
    · rename_i hv
      exact value_leads hv

theorem members_leads (h : members d room fuel t = .ok (ms, r)) :
    ∃ c u, t = .char c :: u ∧ Leads c := by
  cases fuel with
  | zero => cases h
  | succ fuel =>
    unfold members at h
    split at h
    · exact ⟨'"', _, rfl, by decide⟩
    · cases h

theorem Leads.not_closing {c : Char} (h : Leads c) : CodePoint.char c ∉ WideText.ofText closings := by
  simp only [closings, WideText.ofText, List.map_cons, List.map_nil, List.mem_cons, List.not_mem_nil,
    or_false, not_or, CodePoint.char.injEq]
  exact ⟨h.ne (by decide), h.ne (by decide)⟩

theorem leads_of_opening {c : Char} (h : c ∈ openings) : Leads c := by
  simp only [openings, List.mem_cons, List.not_mem_nil, or_false] at h
  rcases h with rfl | rfl <;> decide

section Steps

variable {key y z : WideText}

theorem Awaits.member (ha : Awaits document (.char '"' :: t) k)
    (h : string d t = .ok (key, z)) (hz : Json.skip z = .char ':' :: y) :
    Awaits document (Json.skip y) k := by
  obtain ⟨b, hb, rfl⟩ := string_sound h
  obtain ⟨a, hsp, hu⟩ := spaces_skip z
  have hkey := (balanced_string hb).append (.spaces hsp)
  rw [hu, hz] at ha
  exact (Awaits.pass (by simpa using ha) hkey (c := ':') (by decide)).skip

theorem Awaits.next (ha : Awaits document t k) (h : value d room fuel t = .ok (v, u))
    (hu : Json.skip u = .char ',' :: y) : Awaits document (Json.skip y) k := by
  obtain ⟨w, rfl, hw⟩ := (sound d fuel).value h
  obtain ⟨a, hsp, ha'⟩ := spaces_skip u
  rw [ha', hu, ← List.append_assoc] at ha
  exact (ha.pass (hw.balanced.append (.spaces hsp)) (by decide)).skip

theorem skip_length (t : WideText) : (skip t).length ≤ t.length :=
  (List.dropWhile_suffix _).length_le

theorem rest_length {c : CodePoint} (h : skip t = c :: y) : (skip y).length < t.length := by
  have hy := skip_length y
  have ht := skip_length t
  rw [h, List.length_cons] at ht
  omega

theorem value_length (h : value d room fuel t = .ok (v, r)) : r.length < t.length := by
  obtain ⟨w, rfl, hw⟩ := (sound d fuel).value h
  obtain ⟨c, x, rfl, -⟩ := hw.cons
  rw [List.length_append, List.length_cons]
  omega

theorem string_length (h : string d t = .ok (key, z)) : z.length < t.length := by
  obtain ⟨b, -, rfl⟩ := string_sound h
  rw [List.length_append, List.length_cons]
  omega

end Steps

section Tightening

/-- The text keeps within the bounds of the dialect, with room for an empty container wherever one may
begin. -/
structure Within (d : Dialect) (document : WideText) : Prop where
  numbers : NumbersWithin d.length document
  nesting : ∃ limit, NestsWithin limit document ∧ limit ≤ d.nesting.limit ∧
    d.nesting.admitsEmpty (d.nesting.limit - limit)

theorem Within.exists_room {c : Char} (h : Within d document) (ha : Awaits document t (k + 1))
    (ht : ∃ u, t = .char c :: u) (hc : Leads c) (hk : k + room = d.nesting.limit) :
    ∃ n, room = n + 1 ∧ k + 1 + n = d.nesting.limit := by
  obtain ⟨u, rfl⟩ := ht
  obtain ⟨limit, hd, hl, -⟩ := h.nesting
  have hle := ha.depth_le hd hc.not_space hc.not_closing
  exact ⟨room - 1, by omega, by omega⟩

theorem Within.admitsEmpty {c : Char} (h : Within d document) (ha : Awaits document (.char c :: t) k)
    (hc : Leads c) (hk : k + room = d.nesting.limit) : d.nesting.admitsEmpty room := by
  obtain ⟨limit, hd, -, hempty⟩ := h.nesting
  have hle := ha.depth_le hd hc.not_space hc.not_closing
  exact NestingRule.admitsEmpty_mono hempty (by omega)

theorem string_eq (h : e.loneHalves = d.loneHalves) (t : WideText) : string e t = string d t := by
  unfold string
  rw [h]

theorem scalar_within (hd : Within d document) (ha : Awaits document t k)
    (h : scalar e t = .ok (v, r)) : scalar d t = .ok (v, r) := by
  unfold scalar at h ⊢
  split at h
  · exact h
  · split at h
    · cases h
    · rename_i n u hn
      have hlength := ha.not_exceeds hd.numbers (foremost_of_number? hn)
      split at h
      · cases h
      · rwa [if_neg (by simp [hlength])]

/-- At the places of a text that keeps within the bounds of one dialect, its readers take whatever
those of the other take. -/
structure Tightens (e d : Dialect) (document : WideText) (fuel : ℕ) : Prop where
  value : ∀ {loose room : ℕ} {t r : WideText} {v : Json} {k : ℕ}, Awaits document t k →
    k + room = d.nesting.limit → value e loose fuel t = .ok (v, r) → value d room fuel t = .ok (v, r)
  items : ∀ {loose room : ℕ} {t r : WideText} {vs : List Json} {k : ℕ}, Awaits document t k →
    k + room = d.nesting.limit → items e loose fuel t = .ok (vs, r) → items d room fuel t = .ok (vs, r)
  members : ∀ {loose room : ℕ} {t r : WideText} {ms : Members} {k : ℕ}, Awaits document t k →
    k + room = d.nesting.limit → members e loose fuel t = .ok (ms, r) → members d room fuel t = .ok (ms, r)

theorem Tightens.value_succ (hh : e.loneHalves = d.loneHalves) (hd : Within d document)
    (ih : Tightens e d document fuel) (ha : Awaits document t k) (hk : k + room = d.nesting.limit)
    (h : Json.value e loose (fuel + 1) t = .ok (v, r)) :
    Json.value d room (fuel + 1) t = .ok (v, r) := by
  unfold Json.value at h
  split at h
  · rw [value.eq_2, ← string_eq hh]
    exact h
  · rename_i u
    split at h
    · rename_i hclose
      split at h
      · cases h
        exact value_emptyArray hclose (hd.admitsEmpty ha (by decide) hk) fuel
      · cases h
    · split at h
      · cases h
      · obtain ⟨vs, hvs, rfl⟩ := eq_ok_of_map h
        obtain ⟨c, x, hx, hc⟩ := items_leads hvs
        have hin := (ha.enter (by decide)).skip
        obtain ⟨n, rfl, hn⟩ := hd.exists_room hin ⟨x, hx⟩ hc hk
        rw [value_array (by simpa [hx] using hc.ne (by decide)), ih.items hin hn hvs]
        rfl
  · rename_i u
    split at h
    · rename_i hclose
      split at h
      · cases h
        exact value_emptyObject hclose (hd.admitsEmpty ha (by decide) hk) fuel
      · cases h
    · split at h
      · cases h
      · obtain ⟨ms, hms, rfl⟩ := eq_ok_of_map h
        obtain ⟨c, x, hx, hc⟩ := members_leads hms
        have hin := (ha.enter (by decide)).skip
        obtain ⟨n, rfl, hn⟩ := hd.exists_room hin ⟨x, hx⟩ hc hk
        rw [value_object (by simpa [hx] using hc.ne (by decide)), ih.members hin hn hms]
        rfl
  · rename_i hq hb ho
    rw [value.eq_5 d room _ fuel hq hb ho]
    exact scalar_within hd ha h

theorem Tightens.items_succ (ih : Tightens e d document fuel) (ha : Awaits document t k)
    (hk : k + room = d.nesting.limit) (h : Json.items e loose (fuel + 1) t = .ok (vs, r)) :
    Json.items d room (fuel + 1) t = .ok (vs, r) := by
  rw [items.eq_2] at h ⊢
  split at h
  · cases h
  · rename_i v u hv
    rw [ih.value ha hk hv]
    simp only
    split at h
    · exact h
    · rename_i s hcomma
      obtain ⟨ws, hws, rfl⟩ := eq_ok_of_map h
      rw [ih.items (ha.next hv hcomma) hk hws]
      rfl
    · cases h

theorem Tightens.members_succ (hh : e.loneHalves = d.loneHalves) (ih : Tightens e d document fuel)
    (ha : Awaits document t k) (hk : k + room = d.nesting.limit)
    (h : Json.members e loose (fuel + 1) t = .ok (ms, r)) :
    Json.members d room (fuel + 1) t = .ok (ms, r) := by
  unfold Json.members at h
  split at h
  · rename_i u
    rw [members.eq_2, ← string_eq hh]
    split at h
    · cases h
    · rename_i key z hkey
      split at h
      · rename_i y hcolon
        have hvalue := ha.member hkey hcolon
        split at h
        · cases h
        · rename_i v q hv
          simp only [ih.value hvalue hk hv]
          split at h
          · exact h
          · rename_i s hcomma
            obtain ⟨ws, hws, rfl⟩ := eq_ok_of_map h
            simp only [ih.members (hvalue.next hv hcomma) hk hws]
            rfl
          · cases h
      · cases h
  · cases h

theorem tightens (hh : e.loneHalves = d.loneHalves) (hd : Within d document) (fuel : ℕ) :
    Tightens e d document fuel := by
  induction fuel with
  | zero =>
    constructor
    · intro loose room t r v k _ _ h
      cases h
    · intro loose room t r vs k _ _ h
      cases h
    · intro loose room t r ms k _ _ h
      cases h
  | succ fuel ih => exact ⟨ih.value_succ hh hd, ih.items_succ, ih.members_succ hh⟩

theorem read_within (hh : e.loneHalves = d.loneHalves) (hd : Within d t) (h : read e t = .ok v) :
    read d t = .ok v := by
  unfold read at h ⊢
  split at h
  · cases h
  · rename_i hmark
    rw [if_neg hmark]
    split at h
    · cases h
    · rename_i w r hv
      have htop : 0 + d.nesting.limit = d.nesting.limit := Nat.zero_add _
      rw [(tightens hh hd _).value (Awaits.start t).skip htop hv]
      exact h

/-- On a text within the bounds of the dialect, its documents are those of the grammar without
bounds. -/
theorem derives_iff (hd : Within d t) : Derives d.loneHalves t v ↔ Document d t v := by
  constructor
  · rintro ⟨nesting, length, h⟩
    have hhalves : (⟨d.loneHalves, nesting, length⟩ : Dialect).loneHalves = d.loneHalves := rfl
    exact document_of_read (read_within hhalves hd (read_of_document h))
  · exact fun h => ⟨d.nesting, d.length, h⟩

end Tightening

section Faults

/-- A fault that speaks of a bound is met where the document passes it. -/
def Fault.Kind.MetIn (d : Dialect) (document : WideText) : Fault.Kind → Prop
  | .tooLong limit digits => limit = d.length.limit ∧ ∃ before t depth n,
      Place document before t depth ∧ Separates before ∧ Foremost n t ∧
      n.exceeds d.length = true ∧ n.whole.length = digits
  | .tooDeep => ∃ before c t depth, Place document before (.char c :: t) depth ∧ c ∈ openings ∧
      d.nesting.limit ≤ depth
  | _ => True

variable {f : Fault}

theorem eq_error_of_map {α β : Type} {g : α → β} {x : Reading α} (h : x.map g = .error f) :
    x = .error f := by
  cases x with
  | error e =>
    cases h
    rfl
  | ok y => cases h

theorem units_metIn {opened : ℕ} (h : units opened t = .error f) : f.kind.MetIn d document := by
  fun_induction units opened t with
  | case2 => cases h
  | case4 _ _ _ _ _ _ _ _ _ ih => exact ih (eq_error_of_map h)
  | case7 _ _ _ _ _ _ ih => exact ih (eq_error_of_map h)
  | case10 _ _ _ _ _ ih => exact ih (eq_error_of_map h)
  | _ =>
    cases h
    trivial

theorem string_metIn (h : string e t = .error f) : f.kind.MetIn d document := by
  unfold string at h
  split at h
  · rename_i hu
    cases h
    exact units_metIn hu
  · simp only at h
    split at h
    · cases h
    · cases h
      trivial

theorem scalar_metIn (ha : Awaits document t k) (h : scalar d t = .error f) :
    f.kind.MetIn d document := by
  unfold scalar at h
  split at h
  · cases h
  · split at h
    · cases h
      trivial
    · rename_i n u hn
      split at h
      · rename_i hlong
        cases h
        obtain ⟨before, hplace, hsep⟩ := ha
        exact ⟨rfl, before, t, k, n, hplace, hsep, foremost_of_number? hn, hlong, rfl⟩
      · cases h

theorem scalar_of_long {n : NumberText} {w : Text} (hn : NumberForm n w)
    (hlong : n.exceeds d.length = true) (hr : Delimited r) : scalar d (WideText.ofText w ++ r) =
      .error ⟨.tooLong d.length.limit n.whole.length, r.length⟩ := by
  rw [scalar, named?_of_number hn, number?_of_form hn hr]
  simp only [hlong, if_true]

theorem value_of_long {n : NumberText} {w : Text} (hn : NumberForm n w)
    (hlong : n.exceeds d.length = true) (hr : Delimited r) (room fuel : ℕ) :
    value d room (fuel + 1) (skip (WideText.ofText w ++ r)) =
      .error ⟨.tooLong d.length.limit n.whole.length, r.length⟩ := by
  obtain ⟨c, u, rfl, hc, hplain⟩ := number_cons hn
  have hscalar := scalar_of_long hn hlong hr
  rw [WideText.ofText_cons, List.cons_append] at hscalar ⊢
  rw [skip, List.dropWhile_cons_of_neg (by simp [hc.not_space]), value_scalar hplain, hscalar]

theorem read_of_long {n : NumberText} {w : Text} (hn : NumberForm n w)
    (hlong : n.exceeds d.length = true) : read d (WideText.ofText w) =
      .error ⟨.tooLong d.length.limit n.whole.length, 0⟩ := by
  have hnone : Delimited [] := fun c u hc => by cases hc
  have hvalue := value_of_long hn hlong hnone d.nesting.limit (2 * (WideText.ofText w).length + 1)
  rw [List.append_nil] at hvalue
  have hhead : (WideText.ofText w).head? ≠ some (.char (Char.ofNat 0xFEFF)) := by
    obtain ⟨c, u, rfl, hc, -⟩ := number_cons hn
    simpa using hc.ne (by decide)
  rw [read, if_neg hhead, fuelFor, hvalue]
  rfl

theorem read_of_long_member {n : NumberText} {w : Text} {key b : WideText} (hkey : StringForm d key b)
    (hn : NumberForm n w) (hlong : n.exceeds d.length = true) (hr : Delimited r)
    (hroom : 0 < d.nesting.limit) :
    read d (.char '{' :: .char '"' :: (b ++ .char '"' :: .char ':' :: (WideText.ofText w ++ r))) =
      .error ⟨.tooLong d.length.limit n.whole.length, r.length⟩ := by
  obtain ⟨room, hd⟩ : ∃ k, d.nesting.limit = k + 1 := ⟨d.nesting.limit - 1, by omega⟩
  have hmark (t : WideText) : skip (.char '"' :: t) = .char '"' :: t := rfl
  have hcolon (t : WideText) : skip (.char ':' :: t) = .char ':' :: t := rfl
  rw [read, if_neg (by simp), hd]
  have hfuel : 3 ≤ fuelFor (.char '{' :: .char '"' ::
      (b ++ .char '"' :: .char ':' :: (WideText.ofText w ++ r))) := by
    simp only [fuelFor, List.length_cons]
    omega
  obtain ⟨fuel, hf⟩ := Nat.exists_eq_add_of_le' hfuel
  rw [hf, skip, List.dropWhile_cons_of_neg (by decide), value_object (by simp [hmark]), hmark,
    members.eq_2, string_of_form hkey]
  simp only [hcolon, value_of_long hn hlong hr]
  rfl

/-- With so much fuel, whatever fault the readers meet at a place is one that the document has. -/
structure Faulty (d : Dialect) (document : WideText) (fuel : ℕ) : Prop where
  value : ∀ {room : ℕ} {t : WideText} {f : Fault} {k : ℕ}, Awaits document t k →
    k + room = d.nesting.limit → 2 * t.length + 1 ≤ fuel → value d room fuel t = .error f →
    f.kind.MetIn d document
  items : ∀ {room : ℕ} {t : WideText} {f : Fault} {k : ℕ}, Awaits document t k →
    k + room = d.nesting.limit → 2 * t.length + 2 ≤ fuel → items d room fuel t = .error f →
    f.kind.MetIn d document
  members : ∀ {room : ℕ} {t : WideText} {f : Fault} {k : ℕ}, Awaits document t k →
    k + room = d.nesting.limit → 2 * t.length + 2 ≤ fuel → members d room fuel t = .error f →
    f.kind.MetIn d document

theorem Awaits.tooDeep {c : Char} (ha : Awaits document (.char c :: t) k) (hc : c ∈ openings)
    (hk : d.nesting.limit ≤ k) : Fault.Kind.tooDeep.MetIn d document := by
  obtain ⟨before, hplace, -⟩ := ha
  exact ⟨before, c, t, k, hplace, hc, hk⟩

theorem Awaits.tooDeep_of_empty {c : Char} (ha : Awaits document (.char c :: t) k)
    (hc : c ∈ openings) (hk : k + room = d.nesting.limit) (h : ¬ d.nesting.admitsEmpty room) :
    Fault.Kind.tooDeep.MetIn d document := by
  have hzero : room = 0 := Nat.eq_zero_of_not_pos fun hp => h (NestingRule.admitsEmpty_of_lt hp)
  exact ha.tooDeep hc (by omega)

theorem Faulty.value_succ (ih : Faulty d document fuel) (ha : Awaits document t k)
    (hk : k + room = d.nesting.limit) (hf : 2 * t.length + 1 ≤ fuel + 1)
    (h : Json.value d room (fuel + 1) t = .error f) : f.kind.MetIn d document := by
  unfold Json.value at h
  split at h
  · exact string_metIn (eq_error_of_map h)
  · rename_i u
    split at h
    · split at h
      · cases h
      · rename_i hroom
        cases h
        exact ha.tooDeep_of_empty (by decide) hk hroom
    · split at h
      · cases h
        exact ha.tooDeep (by decide) (by omega)
      · have hlen := skip_length u
        rw [List.length_cons] at hf
        exact ih.items (ha.enter (by decide)).skip (by omega) (by omega) (eq_error_of_map h)
  · rename_i u
    split at h
    · split at h
      · cases h
      · rename_i hroom
        cases h
        exact ha.tooDeep_of_empty (by decide) hk hroom
    · split at h
      · cases h
        exact ha.tooDeep (by decide) (by omega)
      · have hlen := skip_length u
        rw [List.length_cons] at hf
        exact ih.members (ha.enter (by decide)).skip (by omega) (by omega) (eq_error_of_map h)
  · exact scalar_metIn ha h

theorem Faulty.items_succ (ih : Faulty d document fuel) (ha : Awaits document t k)
    (hk : k + room = d.nesting.limit) (hf : 2 * t.length + 2 ≤ fuel + 1)
    (h : Json.items d room (fuel + 1) t = .error f) : f.kind.MetIn d document := by
  rw [items.eq_2] at h
  split at h
  · rename_i hv
    cases h
    exact ih.value ha hk (by omega) hv
  · rename_i v u hv
    split at h
    · cases h
    · rename_i s hcomma
      -- the value and the comma pay for the step into the rest
      have hlen := value_length hv
      have hrest := rest_length hcomma
      exact ih.items (ha.next hv hcomma) hk (by omega) (eq_error_of_map h)
    · cases h
      trivial

theorem Faulty.members_succ (ih : Faulty d document fuel) (ha : Awaits document t k)
    (hk : k + room = d.nesting.limit) (hf : 2 * t.length + 2 ≤ fuel + 1)
    (h : Json.members d room (fuel + 1) t = .error f) : f.kind.MetIn d document := by
  unfold Json.members at h
  split at h
  · rename_i u
    split at h
    · rename_i hkey
      cases h
      exact string_metIn hkey
    · rename_i key z hkey
      split at h
      · rename_i y hcolon
        have hvalue := ha.member hkey hcolon
        have hlen := string_length hkey
        have hrest := rest_length hcolon
        rw [List.length_cons] at hf
        split at h
        · rename_i hv
          cases h
          exact ih.value hvalue hk (by omega) hv
        · rename_i v q hv
          split at h
          · cases h
          · rename_i s hcomma
            have hlen' := value_length hv
            have hrest' := rest_length hcomma
            exact ih.members (hvalue.next hv hcomma) hk (by omega) (eq_error_of_map h)
          · cases h
            trivial
      · cases h
        trivial
  · cases h
    trivial

theorem faulty (d : Dialect) (document : WideText) (fuel : ℕ) : Faulty d document fuel := by
  induction fuel with
  | zero =>
    constructor
    · intro room t f k _ _ hf
      exact absurd hf (by omega)
    · intro room t f k _ _ hf
      exact absurd hf (by omega)
    · intro room t f k _ _ hf
      exact absurd hf (by omega)
  | succ fuel ih => exact ⟨ih.value_succ, ih.items_succ, ih.members_succ⟩

/-- A fault that speaks of a bound is met only where the text passes it. -/
theorem metIn_of_read (h : read d t = .error f) : f.kind.MetIn d t := by
  unfold read at h
  split at h
  · cases h
    trivial
  · split at h
    · rename_i hv
      cases h
      have hlen := skip_length t
      exact (faulty d t _).value (Awaits.start t).skip (Nat.zero_add _)
        (by rw [fuelFor]; omega) hv
    · split at h
      · cases h
      · cases h
        trivial

end Faults

end ParserRelay.Json
