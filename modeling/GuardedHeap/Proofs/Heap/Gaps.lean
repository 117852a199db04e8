import GuardedHeap.Proofs.Heap.Spans
import Mathlib.Data.List.Perm.Basic
import Mathlib.Order.Bounds.Basic

/-! # Gaps — the free spans are the stretches between those that are taken

    What the spans keep is a list; what it is for is told by the spans that
    were taken and not yet given back.  A `Gap` is a maximal stretch of the
    range without a byte of a taken span.  The invariant of every sequence
    of requests (`Reached.sound`) says that an address is free exactly if no
    taken span covers it, and that no two free spans touch, nor the last one
    the bump pointer.  Because of the second part the free spans and what
    lies behind the bump pointer are the gaps themselves (`Sound.gap_iff`),
    and not pieces of them, so that the first span that is long enough is
    the lowest gap that is (`Reached.spans_exact`). -/

namespace GuardedHeap.Spans

variable {begin past size at' a : Nat} {s t : Spans} {taken l : List Span} {x y : Span}

/-! ## Requests -/

/-- What requests make of a fresh range, and the spans that are taken by then. -/
inductive Reached (begin past : Nat) : Spans → List Span → Prop where
  | new (h : begin ≤ past) : Reached begin past (new begin past) []
  | alloc {s t : Spans} {taken : List Span} {size at' : Nat} (h : Reached begin past s taken)
      (hsize : 0 < size) (halloc : s.alloc size = some (at', t)) :
      Reached begin past t (⟨at', size⟩ :: taken)
  | release {s : Spans} {taken : List Span} {x : Span} (h : Reached begin past s taken)
      (hx : x ∈ taken) : Reached begin past (s.release x) (taken.erase x)

/-- A maximal stretch of `[begin, past)` without a byte of a taken span. -/
structure Gap (begin past : Nat) (taken : List Span) (x : Span) : Prop where
  size_pos : 0 < x.size
  lo_le : begin ≤ x.begin
  le_hi : x.past ≤ past
  untaken : ∀ a, x.Covers a → ¬ Covered taken a
  closed_before : x.begin = begin ∨ Covered taken (x.begin - 1)
  closed_behind : x.past = past ∨ Covered taken x.past

/-! ## The invariant -/

/-- The taken spans share no address, and the addresses of the range that they leave are free. -/
structure Sound (begin past : Nat) (s : Spans) (taken : List Span) : Prop where
  tidy : Tidy 1 begin s
  past_eq : s.past = past
  size_pos : ∀ x ∈ taken, 0 < x.size
  within : ∀ x ∈ taken, begin ≤ x.begin ∧ x.past ≤ past
  apart : taken.Pairwise fun x y => ∀ a, x.Covers a → ¬ y.Covers a
  free_iff : ∀ a, begin ≤ a → a < past → (s.Free a ↔ ¬ Covered taken a)

/-- Every span is made of whole bytes. -/
theorem whole_one (hpos : 0 < x.size) : x.Whole 1 :=
  ⟨Nat.one_dvd _, Nat.one_dvd _, hpos⟩

theorem covered_perm {l' : List Span} (h : l.Perm l') : Covered l a ↔ Covered l' a := by
  simp only [Covered, h.mem_iff]

/-- Fresh spans with nothing taken are sound. -/
theorem sound_new (h : begin ≤ past) : Sound begin past (new begin past) [] where
  tidy := tidy_new (Nat.one_dvd _) h
  past_eq := rfl
  size_pos := nofun
  within := nofun
  apart := List.Pairwise.nil
  free_iff _ hlo hhi := iff_of_true (.inr ⟨hlo, hhi⟩) covered_nil

/-- A span that is taken is sound. -/
theorem Sound.alloc (h : Sound begin past s taken) (hsize : 0 < size)
    (halloc : s.alloc size = some (at', t)) : Sound begin past t (⟨at', size⟩ :: taken) := by
  obtain ⟨htidy, hpast, -, hlo, hhi, hwas, hfree⟩ := h.tidy.alloc (Nat.one_dvd size) halloc
  rw [h.past_eq] at hpast hhi
  refine ⟨htidy, hpast, List.forall_mem_cons.mpr ⟨hsize, h.size_pos⟩,
    List.forall_mem_cons.mpr ⟨⟨hlo, hhi⟩, h.within⟩, List.pairwise_cons.mpr ⟨fun y hy a ha hya => ?_, h.apart⟩,
    fun a halo hahi => ?_⟩
  · have hyin := h.within y hy
    have hfree := (h.free_iff a (Nat.le_trans hyin.1 hya.1) (Nat.lt_of_lt_of_le hya.2 hyin.2)).mp
      (hwas a ha.1 ha.2)
    exact hfree ⟨y, hy, hya⟩
  · rw [hfree a, h.free_iff a halo hahi, covered_cons, not_or, and_comm]
    exact Iff.rfl

/-- A span that is given back is sound. -/
theorem Sound.release (h : Sound begin past s taken) (hx : x ∈ taken) :
    Sound begin past (s.release x) (taken.erase x) := by
  have hperm := List.perm_cons_erase hx
  have hrest : ∀ y ∈ taken.erase x, y ∈ taken := fun y hy => List.mem_of_mem_erase hy
  obtain ⟨hoff, hapart⟩ := List.pairwise_cons.mp
    ((hperm.pairwise_iff fun {x y} hxy a hy hx => hxy a hx hy).mp h.apart)
  obtain ⟨hlo, hhi⟩ := h.within x hx
  have htaken : ∀ a, x.Covers a → ¬ s.Free a := fun a ha hfree =>
    (h.free_iff a (Nat.le_trans hlo ha.1) (Nat.lt_of_lt_of_le ha.2 hhi)).mp hfree ⟨x, hx, ha⟩
  obtain ⟨htidy, hpast, hfree⟩ := h.tidy.release (whole_one (h.size_pos x hx)) hlo
    (h.past_eq ▸ hhi) htaken
  refine ⟨htidy, hpast.trans h.past_eq, fun y hy => h.size_pos y (hrest y hy),
    fun y hy => h.within y (hrest y hy), hapart, fun a halo hahi => ?_⟩
  rw [hfree a, h.free_iff a halo hahi, covered_perm hperm, covered_cons]
  constructor
  · rintro (hout | hcovers) hcovered
    · exact hout (.inr hcovered)
    · obtain ⟨y, hy, hya⟩ := hcovered
      exact hoff y hy a hcovers hya
  · intro hout
    by_cases hcovers : x.Covers a
    · exact .inr hcovers
    · exact .inl (not_or.mpr ⟨hcovers, hout⟩)

/-- All that is reached is sound. -/
theorem Reached.sound (h : Reached begin past s taken) : Sound begin past s taken := by
  induction h with
  | new h => exact sound_new h
  | alloc _ hsize halloc ih => exact ih.alloc hsize halloc
  | release _ hx ih => exact ih.release hx

/-! ## Free spans as gaps -/

/-- The free spans with the one behind the bump pointer. -/
def gaps (s : Spans) : List Span :=
  s.free ++ if s.bump < s.past then [⟨s.bump, s.past - s.bump⟩] else []

/-- The gaps are the free spans, and the range behind all of them. -/
theorem mem_gaps : x ∈ s.gaps ↔ x ∈ s.free ∨ s.bump < s.past ∧ x = ⟨s.bump, s.past - s.bump⟩ := by
  unfold gaps
  rw [List.mem_append]
  by_cases hroom : s.bump < s.past
  · rw [if_pos hroom, List.mem_singleton]
    simp only [hroom, true_and]
  · rw [if_neg hroom]
    simp only [List.not_mem_nil, hroom, false_and]

theorem Row.whole_of_mem {unit lo hi : Nat} (h : Row unit lo hi l) (hx : x ∈ l) : x.Whole unit := by
  induction l generalizing lo with
  | nil => exact nomatch hx
  | cons y rest ih =>
      rcases List.mem_cons.mp hx with rfl | hx
      · exact h.2.1
      · exact ih h.2.2 hx

section Tidy

variable {unit : Nat} (h : Tidy unit begin s)

include h

theorem Tidy.gaps_size_pos (hx : x ∈ s.gaps) : 0 < x.size := by
  rcases mem_gaps.mp hx with hx | ⟨hroom, rfl⟩
  · exact (h.row.whole_of_mem hx).size_pos
  · exact Nat.sub_pos_of_lt hroom

/-- No gap touches the next one. -/
theorem Tidy.gaps_apart : s.gaps.Pairwise (·.past < ·.begin) := by
  unfold gaps
  refine List.pairwise_append.mpr ⟨h.apart.spans, ?_, fun x hx y hy => ?_⟩
  · split
    · exact List.pairwise_singleton _ _
    · exact List.Pairwise.nil
  · split at hy
    · obtain rfl := List.mem_singleton.mp hy
      exact h.apart.bump x hx
    · exact nomatch hy

/-- The gaps cover what is free. -/
theorem Tidy.covered_gaps : Covered s.gaps a ↔ s.Free a := by
  have hle := h.bump_le
  unfold gaps Free
  rw [covered_append]
  refine or_congr_right ?_
  by_cases hroom : s.bump < s.past
  · rw [if_pos hroom, covered_cons, or_iff_left covered_nil]
    simp only [Span.Covers, Span.past]
    omega
  · rw [if_neg hroom]
    exact iff_of_false covered_nil (by omega)

end Tidy

/-- Next to a span that touches no other one nothing is covered. -/
theorem not_covered_beside (hapart : l.Pairwise (·.past < ·.begin)) (hx : x ∈ l) :
    ¬ Covered l x.past ∧ (0 < x.begin → ¬ Covered l (x.begin - 1)) := by
  obtain ⟨pre, post, rfl⟩ := List.append_of_mem hx
  obtain ⟨-, hpost, hcross⟩ := List.pairwise_append.mp hapart
  have hbehind := (List.pairwise_cons.mp hpost).1
  have hwidth : ∀ y : Span, y.begin ≤ y.past := fun y => Nat.le_add_right _ _
  have hbefore : ∀ y ∈ pre, y.past < x.begin := fun y hy => hcross y hy x List.mem_cons_self
  have hxx := hwidth x
  refine ⟨?_, fun hpos => ?_⟩
  all_goals
    rintro ⟨y, hy, hlo, hhi⟩
    rcases List.mem_append.mp hy with hy | hy
    · have := hbefore y hy
      omega
    · rcases List.mem_cons.mp hy with rfl | hy
      · omega
      · have := hbehind y hy
        omega

section Sound

variable (h : Sound begin past s taken)

include h

/-- Of the range, the gaps cover what the taken spans leave. -/
theorem Sound.covered_gaps (hlo : begin ≤ a) (hhi : a < past) : Covered s.gaps a ↔ ¬ Covered taken a :=
  h.tidy.covered_gaps.trans (h.free_iff a hlo hhi)

/-- The gaps lie in the range. -/
theorem Sound.gaps_bounds (ha : Covered s.gaps a) : begin ≤ a ∧ a < past := by
  have hle := h.tidy.bump_le
  have hlo := h.tidy.row.le
  have hpast := h.past_eq
  rcases h.tidy.covered_gaps.mp ha with hfree | hbehind
  · have := h.tidy.row.covered_bounds hfree
    omega
  · omega

theorem Sound.gaps_within (hx : x ∈ s.gaps) : begin ≤ x.begin ∧ x.past ≤ past := by
  have hpos := h.tidy.gaps_size_pos hx
  have hfirst := h.gaps_bounds ⟨x, hx, Nat.le_refl _, Nat.lt_add_of_pos_right hpos⟩
  have hlast := h.gaps_bounds (a := x.past - 1)
    ⟨x, hx, by unfold Span.past; omega, by unfold Span.past; omega⟩
  omega

/-- A free span that touches no other one ends where a taken span or the range does. -/
theorem Sound.gap_of_mem (hx : x ∈ s.gaps) : Gap begin past taken x := by
  obtain ⟨hlo, hhi⟩ := h.gaps_within hx
  have hpos := h.tidy.gaps_size_pos hx
  have hlt : x.begin < x.past := Nat.lt_add_of_pos_right hpos
  obtain ⟨hbehind, hbefore⟩ := not_covered_beside h.tidy.gaps_apart hx
  refine ⟨hpos, hlo, hhi, fun a ha => ?_, ?_, ?_⟩
  · exact (h.covered_gaps (Nat.le_trans hlo ha.1) (Nat.lt_of_lt_of_le ha.2 hhi)).mp ⟨x, hx, ha⟩
  · rcases Nat.eq_or_lt_of_le hlo with heq | hgt
    · exact .inl heq.symm
    · exact .inr (not_not.mp (mt (h.covered_gaps (by omega) (by omega)).mpr (hbefore (by omega))))
  · rcases Nat.eq_or_lt_of_le hhi with heq | hgt
    · exact .inl heq
    · exact .inr (not_not.mp (mt (h.covered_gaps (by omega) hgt).mpr hbehind))

/-- A gap is one free span: the one that it begins in. -/
theorem Sound.mem_of_gap (hgap : Gap begin past taken x) : x ∈ s.gaps := by
  have hxlo := hgap.lo_le
  have hxhi := hgap.le_hi
  have hx : x.begin < x.past := Nat.lt_add_of_pos_right hgap.size_pos
  obtain ⟨y, hy, hylo, hyhi⟩ := (h.covered_gaps hxlo (by omega)).mpr
    (hgap.untaken _ ⟨Nat.le_refl _, hx⟩)
  obtain ⟨hin, hin'⟩ := h.gaps_within hy
  -- It cannot begin before the gap, whose border is taken, and neither end before nor behind it.
  have hbegin : y.begin = x.begin := by
    by_contra hne
    rcases hgap.closed_before with hfirst | hbefore
    · omega
    · exact (h.covered_gaps (by omega) (by omega)).mp ⟨y, hy, by omega, by omega⟩ hbefore
  have hpast : y.past = x.past := by
    rcases Nat.lt_trichotomy y.past x.past with hlt | heq | hgt
    · refine absurd ((h.covered_gaps (a := y.past) (by omega) (by omega)).mpr ?_)
        (not_covered_beside h.tidy.gaps_apart hy).1
      exact hgap.untaken _ ⟨by omega, hlt⟩
    · exact heq
    · rcases hgap.closed_behind with hlast | hbehind
      · omega
      · exact absurd hbehind ((h.covered_gaps (by omega) (by omega)).mp ⟨y, hy, by omega, hgt⟩)
  obtain rfl : y = x := by
    obtain ⟨yb, ys⟩ := y
    obtain ⟨xb, xs⟩ := x
    simp only [Span.past] at *
    subst hbegin
    congr 1
    omega
  exact hy

/-- The gaps are the longest ranges with nothing taken. -/
theorem Sound.gap_iff : Gap begin past taken x ↔ x ∈ s.gaps :=
  ⟨h.mem_of_gap, h.gap_of_mem⟩

/-- The free spans and the taken ones make up the range up to the bump pointer. -/
theorem Sound.covered_iff : Covered (s.free ++ taken) a ↔ begin ≤ a ∧ a < s.bump := by
  have hle : s.bump ≤ past := h.past_eq ▸ h.tidy.bump_le
  rw [covered_append]
  constructor
  · rintro (hcovered | ⟨x, hx, hxa⟩)
    · exact h.tidy.row.covered_bounds hcovered
    · obtain ⟨hxlo, hxhi⟩ := h.within x hx
      have halo := Nat.le_trans hxlo hxa.1
      have hahi := Nat.lt_of_lt_of_le hxa.2 hxhi
      refine ⟨halo, Nat.lt_of_not_le fun hbump => ?_⟩
      exact (h.free_iff a halo hahi).mp (.inr ⟨hbump, h.past_eq.symm ▸ hahi⟩) ⟨x, hx, hxa⟩
  · rintro ⟨halo, hbump⟩
    by_cases hcovered : Covered taken a
    · exact .inr hcovered
    · refine .inl (((h.free_iff a halo (by omega)).mpr hcovered).resolve_right ?_)
      exact fun hbehind => Nat.not_lt_of_le hbehind.1 hbump

end Sound

/-! ## First fit -/

/-- Cutting looks for the first span that is long enough. -/
theorem takeFirst?_begin (size : Nat) (l : List Span) :
    (takeFirst? size l).map Prod.fst = (l.find? (size ≤ ·.size)).map Span.begin := by
  induction l with
  | nil => rfl
  | cons x rest ih =>
      rw [takeFirst?, List.find?_cons]
      by_cases hfit : size ≤ x.size
      · rw [if_pos hfit, decide_eq_true hfit]
        rfl
      · rw [if_neg hfit, decide_eq_false hfit, Option.map_map]
        exact ih

/-- A request gets the beginning of the first gap that is long enough. -/
theorem alloc_begin (s : Spans) (hsize : 0 < size) :
    (s.alloc size).map Prod.fst = (s.gaps.find? (size ≤ ·.size)).map Span.begin := by
  have htake := takeFirst?_begin size s.free
  unfold Spans.alloc gaps
  rw [List.find?_append]
  cases hfound : takeFirst? size s.free with
  | some found =>
      rw [hfound] at htake
      obtain ⟨x, hx, hbegin⟩ := Option.map_eq_some_iff.mp htake.symm
      rw [hx]
      exact congrArg some hbegin.symm
  | none =>
      rw [hfound] at htake
      rw [Option.map_eq_none_iff.mp htake.symm, Option.none_or]
      dsimp only
      by_cases hroom : s.past - s.bump < size
      · rw [if_pos hroom, List.find?_eq_none.mpr ?_]
        · rfl
        intro x hx
        split at hx
        · obtain rfl := List.mem_singleton.mp hx
          simpa using hroom
        · exact nomatch hx
      · rw [if_neg hroom, if_pos (by omega), List.find?_cons_of_pos (by simpa using hroom)]
        rfl

/-- In spans that are in order, the first one with a property is the lowest one. -/
theorem isLeast_find? {p : Span → Bool} (hapart : l.Pairwise (·.past < ·.begin))
    (hfind : l.find? p = some x) : IsLeast {b | ∃ y ∈ l, p y = true ∧ y.begin = b} x.begin := by
  obtain ⟨hp, pre, post, rfl, hpre⟩ := List.find?_eq_some_iff_append.mp hfind
  refine ⟨⟨x, List.mem_append_right _ List.mem_cons_self, hp, rfl⟩, ?_⟩
  rintro b ⟨y, hy, hpy, rfl⟩
  rcases List.mem_append.mp hy with hy | hy
  · exact absurd hpy (by simpa using hpre y hy)
  · rcases List.mem_cons.mp hy with rfl | hy
    · exact Nat.le_refl _
    · have hlt := (List.pairwise_cons.mp (List.pairwise_append.mp hapart).2.1).1 y hy
      exact Nat.le_of_lt (Nat.lt_of_le_of_lt (Nat.le_add_right _ _) hlt)

section Sound

variable (h : Sound begin past s taken) (hsize : 0 < size)

include h hsize

/-- A span is taken from the lowest gap with room for it. -/
theorem Sound.alloc_isLeast (halloc : s.alloc size = some (at', t)) :
    IsLeast {b | ∃ x, Gap begin past taken x ∧ size ≤ x.size ∧ x.begin = b} at' := by
  have hset : {b | ∃ x, Gap begin past taken x ∧ size ≤ x.size ∧ x.begin = b} =
      {b | ∃ x ∈ s.gaps, decide (size ≤ x.size) = true ∧ x.begin = b} := by
    simp only [h.gap_iff, decide_eq_true_eq]
  have hfirst := alloc_begin s hsize
  rw [halloc] at hfirst
  obtain ⟨x, hx, rfl⟩ := Option.map_eq_some_iff.mp hfirst.symm
  exact hset ▸ isLeast_find? h.tidy.gaps_apart hx

/-- There is no span exactly if no gap has room for it. -/
theorem Sound.alloc_eq_none_iff : s.alloc size = none ↔ ∀ x, Gap begin past taken x → x.size < size := by
  have hfirst := alloc_begin s hsize
  cases halloc : s.alloc size with
  | none =>
      rw [halloc] at hfirst
      have hnone := List.find?_eq_none.mp (Option.map_eq_none_iff.mp hfirst.symm)
      refine iff_of_true rfl fun x hx => ?_
      have hshort := hnone x (h.gap_iff.mp hx)
      rw [decide_eq_true_eq] at hshort
      exact Nat.lt_of_not_le hshort
  | some found =>
      obtain ⟨b, t⟩ := found
      obtain ⟨x, hx, hfit, -⟩ := (h.alloc_isLeast hsize halloc).1
      exact iff_of_false nofun fun hnone => Nat.not_lt_of_le hfit (hnone x hx)

end Sound

/-! ## All requests -/

/-- After any requests the free spans lie in order with a taken byte between any two of them and before
    the bump pointer, and with the taken spans they make up the range up to there.  A request gets the
    lowest gap that is long enough, and gets nothing exactly if there is none; a span that goes back at
    once leaves the spans as they were. -/
theorem Reached.spans_exact (h : Reached begin past s taken) :
    s.free.Pairwise (·.past < ·.begin)
    ∧ (∀ x ∈ s.free, 0 < x.size ∧ x.past < s.bump)
    ∧ s.bump ≤ past
    ∧ ((s.free ++ taken).Pairwise fun x y => ∀ a, x.Covers a → ¬ y.Covers a)
    ∧ (∀ a, Covered (s.free ++ taken) a ↔ begin ≤ a ∧ a < s.bump)
    ∧ ∀ size, 0 < size →
      (∀ b, (∃ t, s.alloc size = some (b, t)) ↔
        IsLeast {b | ∃ x, Gap begin past taken x ∧ size ≤ x.size ∧ x.begin = b} b)
      ∧ (s.alloc size = none ↔ ∀ x, Gap begin past taken x → x.size < size)
      ∧ ∀ b t, s.alloc size = some (b, t) → t.release ⟨b, size⟩ = s := by
  have hs := h.sound
  have hle : s.bump ≤ past := hs.past_eq ▸ hs.tidy.bump_le
  have hfree : ∀ x ∈ s.free, ∀ a, x.Covers a → ¬ Covered taken a := fun x hx a ha =>
    (hs.gap_iff.mpr (mem_gaps.mpr (.inl hx))).untaken a ha
  refine ⟨hs.tidy.apart.spans,
    fun x hx => ⟨(hs.tidy.row.whole_of_mem hx).size_pos, hs.tidy.apart.bump x hx⟩, hle, ?_,
    fun a => hs.covered_iff, fun size hsize => ⟨fun b => ⟨fun ⟨t, ht⟩ => hs.alloc_isLeast hsize ht, ?_⟩,
      hs.alloc_eq_none_iff hsize, fun b t halloc => hs.tidy.release_alloc halloc⟩⟩
  · refine List.pairwise_append.mpr ⟨?_, hs.apart, fun x hx y hy a hxa hya => hfree x hx a hxa ⟨y, hy, hya⟩⟩
    refine hs.tidy.apart.spans.imp fun {x y} hlt a hxa hya => ?_
    exact absurd (Nat.lt_of_le_of_lt hya.1 hxa.2) (Nat.not_lt_of_lt hlt)
  · -- There is a lowest gap that fits, so something is found, and it begins where that gap does.
    intro hleast
    cases halloc : s.alloc size with
    | none =>
        obtain ⟨x, hx, hfit, -⟩ := hleast.1
        exact absurd ((hs.alloc_eq_none_iff hsize).mp halloc x hx) (Nat.not_lt_of_le hfit)
    | some found =>
        obtain ⟨b', t⟩ := found
        exact ⟨t, by rw [(hs.alloc_isLeast hsize halloc).unique hleast]⟩

/-- Three spans of a range of fifteen bytes, of which the middle one is given back: what is asked for comes
    from its gap of five bytes as long as it fits there, and six bytes are nowhere to be had. -/
theorem Reached.spans_exact_in_fifteen :
    ∃ s t, Reached 5 20 s [⟨13, 2⟩, ⟨5, 3⟩] ∧ s.free = [⟨8, 5⟩] ∧ s.bump = 15
      ∧ s.alloc 4 = some (8, t) ∧ t.release ⟨8, 4⟩ = s
      ∧ IsLeast {b | ∃ x, Gap 5 20 [⟨13, 2⟩, ⟨5, 3⟩] x ∧ 4 ≤ x.size ∧ x.begin = b} 8
      ∧ ∀ x, Gap 5 20 [⟨13, 2⟩, ⟨5, 3⟩] x → x.size < 6 := by
  have hnew : Reached 5 20 ⟨[], 5, 20⟩ [] := .new (by decide)
  have hfirst : Reached 5 20 ⟨[], 8, 20⟩ [⟨5, 3⟩] := hnew.alloc (by decide) rfl
  have hsecond : Reached 5 20 ⟨[], 13, 20⟩ [⟨8, 5⟩, ⟨5, 3⟩] := hfirst.alloc (by decide) rfl
  have hthird : Reached 5 20 ⟨[], 15, 20⟩ [⟨13, 2⟩, ⟨8, 5⟩, ⟨5, 3⟩] := hsecond.alloc (by decide) rfl
  have hs : Reached 5 20 ⟨[⟨8, 5⟩], 15, 20⟩ [⟨13, 2⟩, ⟨5, 3⟩] :=
    hthird.release (show (⟨8, 5⟩ : Span) ∈ [⟨13, 2⟩, ⟨8, 5⟩, ⟨5, 3⟩] by decide)
  obtain ⟨-, -, -, -, -, hrequest⟩ := hs.spans_exact
  obtain ⟨hleast, -, hback⟩ := hrequest 4 (by decide)
  obtain ⟨-, hnone, -⟩ := hrequest 6 (by decide)
  exact ⟨_, ⟨[⟨12, 1⟩], 15, 20⟩, hs, rfl, rfl, rfl, hback 8 _ rfl, (hleast 8).mp ⟨_, rfl⟩, hnone.mp rfl⟩

end GuardedHeap.Spans
