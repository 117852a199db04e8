import GuardedHeap.Heap.Spans
import GuardedHeap.Pages
import Mathlib.Data.List.Basic

/-! # Spans — taking and giving back as sets of addresses

    The free spans form a `Row`: sorted, not overlapping, each of whole
    units; a heap asks for whole pages, but nothing rests on the size of the
    unit.  `alloc` takes addresses that were free and leaves the spans
    `Tidy` (`Tidy.alloc`), and `release` gives a range back that was not
    free (`Tidy.release`); that a span merges with its neighbours changes no
    address. -/

namespace GuardedHeap

/-- The span covers the address. -/
def Span.Covers (s : Span) (a : Nat) : Prop :=
  s.begin ≤ a ∧ a < s.past

/-- The span is made of whole units of `unit` bytes, and of one at least. -/
structure Span.Whole (unit : Nat) (s : Span) : Prop where
  begin_dvd : unit ∣ s.begin
  size_dvd : unit ∣ s.size
  size_pos : 0 < s.size

theorem Span.Whole.lt_past {unit : Nat} {s : Span} (h : s.Whole unit) : s.begin < s.past :=
  Nat.lt_add_of_pos_right h.size_pos

/-- The span is made of whole pages, and of one at least. -/
structure Span.Solid (s : Span) : Prop where
  begin_dvd : Pages.pageSize ∣ s.begin
  size_dvd : Pages.pageSize ∣ s.size
  size_pos : 0 < s.size

theorem Span.solid_iff {s : Span} : s.Solid ↔ s.Whole Pages.pageSize :=
  ⟨fun h => ⟨h.begin_dvd, h.size_dvd, h.size_pos⟩, fun h => ⟨h.begin_dvd, h.size_dvd, h.size_pos⟩⟩

theorem Span.Solid.lt_past {s : Span} (h : s.Solid) : s.begin < s.past :=
  (Span.solid_iff.mp h).lt_past

namespace Spans

variable {unit : Nat}

/-- Sorted spans of whole units between two addresses that do not overlap. -/
def Row (unit lo hi : Nat) : List Span → Prop
  | [] => lo ≤ hi
  | s :: rest => lo ≤ s.begin ∧ s.Whole unit ∧ Row unit s.past hi rest

/-- Some span of the list covers the address. -/
def Covered (l : List Span) (a : Nat) : Prop :=
  ∃ s ∈ l, s.Covers a

/-- No span covers nothing. -/
theorem covered_nil {a : Nat} : ¬ Covered [] a :=
  fun ⟨_, h, _⟩ => nomatch h

theorem covered_cons {s : Span} {l : List Span} {a : Nat} :
    Covered (s :: l) a ↔ s.Covers a ∨ Covered l a := by
  simp [Covered]

theorem covered_append {l r : List Span} {a : Nat} :
    Covered (l ++ r) a ↔ Covered l a ∨ Covered r a := by
  simp [Covered, or_and_right, exists_or]

namespace Row

variable {lo hi : Nat} {l r : List Span}

/-- The spans of a row lie between its ends. -/
theorem le (h : Row unit lo hi l) : lo ≤ hi := by
  induction l generalizing lo with
  | nil => exact h
  | cons s rest ih =>
      obtain ⟨hlo, hwhole, hrest⟩ := h
      have := ih hrest
      have := hwhole.lt_past
      omega

/-- A row may begin earlier. -/
theorem weaken_lo {lo' : Nat} (h : Row unit lo hi l) (hlo : lo' ≤ lo) : Row unit lo' hi l := by
  cases l with
  | nil => exact Nat.le_trans hlo h
  | cons s rest => exact ⟨Nat.le_trans hlo h.1, h.2⟩

/-- A row is cut anywhere between its spans. -/
theorem append_iff : Row unit lo hi (l ++ r) ↔ ∃ mid, Row unit lo mid l ∧ Row unit mid hi r := by
  induction l generalizing lo with
  | nil =>
      constructor
      · intro h
        exact ⟨lo, Nat.le_refl lo, h⟩
      · rintro ⟨mid, hlo, h⟩
        exact h.weaken_lo hlo
  | cons s rest ih =>
      constructor
      · rintro ⟨hlo, hwhole, hrest⟩
        obtain ⟨mid, hl, hr⟩ := ih.mp hrest
        exact ⟨mid, ⟨hlo, hwhole, hl⟩, hr⟩
      · rintro ⟨mid, ⟨hlo, hwhole, hl⟩, hr⟩
        exact ⟨hlo, hwhole, ih.mpr ⟨mid, hl, hr⟩⟩

/-- A row may end later. -/
theorem weaken_hi {hi' : Nat} (h : Row unit lo hi l) (hhi : hi ≤ hi') : Row unit lo hi' l := by
  have happend := append_iff.mpr ⟨hi, h, (show Row unit hi hi' [] from hhi)⟩
  rwa [List.append_nil] at happend

/-- Every address that is covered lies between the ends. -/
theorem covered_bounds (h : Row unit lo hi l) {a : Nat} (ha : Covered l a) : lo ≤ a ∧ a < hi := by
  induction l generalizing lo with
  | nil => exact absurd ha covered_nil
  | cons s rest ih =>
      obtain ⟨hlo, hwhole, hrest⟩ := h
      have hle := hrest.le
      rcases covered_cons.mp ha with ⟨hs, hs'⟩ | hrest'
      · omega
      · have := ih hrest hrest'
        have := hwhole.lt_past
        omega

end Row

/-! ## Taking -/

/-- What is left of a span from which `size` bytes were cut. -/
def remainder (size : Nat) (s : Span) : List Span :=
  if size < s.size then [⟨s.begin + size, s.size - size⟩] else []

/-- What remains of a span ends where the span does. -/
theorem mem_remainder {size : Nat} {s r : Span} (hr : r ∈ remainder size s) :
    s.begin ≤ r.begin ∧ r.past = s.past := by
  unfold remainder at hr
  by_cases hlt : size < s.size
  · rw [if_pos hlt] at hr
    obtain rfl := List.mem_singleton.mp hr
    refine ⟨Nat.le_add_right _ _, ?_⟩
    show s.begin + size + (s.size - size) = s.begin + s.size
    omega
  · rw [if_neg hlt] at hr
    exact nomatch hr

/-- The first span that is long enough is cut, and all others stay. -/
theorem takeFirst?_split {size begin : Nat} {l l' : List Span}
    (htake : takeFirst? size l = some (begin, l')) :
    ∃ pre s post, l = pre ++ s :: post ∧ size ≤ s.size ∧ begin = s.begin
      ∧ l' = pre ++ (remainder size s ++ post) := by
  induction l generalizing l' with
  | nil => exact nomatch htake
  | cons s rest ih =>
      simp only [takeFirst?] at htake
      by_cases hfit : size ≤ s.size
      · rw [if_pos hfit] at htake
        obtain ⟨rfl, rfl⟩ := Prod.mk.inj (Option.some.inj htake)
        refine ⟨[], s, rest, rfl, hfit, rfl, ?_⟩
        unfold remainder
        by_cases hlt : size < s.size
        · rw [if_pos hlt, if_pos hlt]
          rfl
        · rw [if_neg hlt, if_neg hlt]
          rfl
      · rw [if_neg hfit] at htake
        obtain ⟨⟨begin', l''⟩, hsome, hpair⟩ := Option.map_eq_some_iff.mp htake
        obtain ⟨rfl, rfl⟩ := Prod.mk.inj hpair
        obtain ⟨pre, t, post, rfl, hsize, hbegin, rfl⟩ := ih hsome
        exact ⟨s :: pre, t, post, rfl, hsize, hbegin, rfl⟩

/-- What is left of a span of whole units is the rest of its units. -/
theorem remainder_spec {size : Nat} {s : Span} (hs : s.Whole unit) (hdvd : unit ∣ size)
    (hfit : size ≤ s.size) :
    Row unit (s.begin + size) s.past (remainder size s)
      ∧ ∀ a, Covered (remainder size s) a ↔ s.begin + size ≤ a ∧ a < s.past := by
  have hpast : s.past = s.begin + s.size := rfl
  unfold remainder
  by_cases hlt : size < s.size
  · rw [if_pos hlt]
    have hend : (⟨s.begin + size, s.size - size⟩ : Span).past = s.past := by
      simp only [Span.past]
      omega
    refine ⟨⟨Nat.le_refl _, ⟨?_, ?_, Nat.sub_pos_of_lt hlt⟩, Nat.le_of_eq hend⟩, fun a => ?_⟩
    · exact Nat.dvd_add hs.begin_dvd hdvd
    · exact Nat.dvd_sub hs.size_dvd hdvd
    · rw [covered_cons, or_iff_left covered_nil, Span.Covers, hend]
  · rw [if_neg hlt]
    refine ⟨show s.begin + size ≤ s.past by omega, fun a => iff_of_false covered_nil ?_⟩
    omega

/-- Cutting from the first span that is long enough. -/
theorem takeFirst?_spec {size : Nat} (hdvd : unit ∣ size) {lo hi : Nat}
    {l l' : List Span} {begin : Nat} (h : Row unit lo hi l)
    (htake : takeFirst? size l = some (begin, l')) :
    Row unit lo hi l' ∧ unit ∣ begin ∧ lo ≤ begin ∧ begin + size ≤ hi
      ∧ (∀ a, begin ≤ a → a < begin + size → Covered l a)
      ∧ ∀ a, Covered l' a ↔ Covered l a ∧ ¬ (begin ≤ a ∧ a < begin + size) := by
  obtain ⟨pre, s, post, rfl, hfit, rfl, rfl⟩ := takeFirst?_split htake
  obtain ⟨mid, hpre, hmid, hs, hpost⟩ := Row.append_iff.mp h
  obtain ⟨hrow, hrest⟩ := remainder_spec hs hdvd hfit
  have hpast : s.past = s.begin + s.size := rfl
  have hlo := hpre.le
  have hhi := hpost.le
  refine ⟨?_, hs.begin_dvd, Nat.le_trans hlo hmid, by omega, fun a halo hahi => ?_, fun a => ?_⟩
  · exact Row.append_iff.mpr ⟨mid, hpre, Row.append_iff.mpr ⟨s.past, hrow.weaken_lo (by omega), hpost⟩⟩
  · exact covered_append.mpr (.inr (covered_cons.mpr (.inl ⟨halo, by omega⟩)))
  · -- What is cut covers nothing of the spans on both sides.
    have hleft : Covered pre a → a < s.begin := fun ha =>
      Nat.lt_of_lt_of_le (hpre.covered_bounds ha).2 hmid
    have hright : Covered post a → s.past ≤ a := fun ha => (hpost.covered_bounds ha).1
    simp only [covered_append, covered_cons, hrest, Span.Covers]
    constructor
    · rintro (ha | ha | ha)
      · have := hleft ha
        exact ⟨.inl ha, by omega⟩
      · exact ⟨.inr (.inl ⟨by omega, ha.2⟩), by omega⟩
      · have := hright ha
        exact ⟨.inr (.inr ha), by omega⟩
    · rintro ⟨ha | ha | ha, hout⟩
      · exact .inl ha
      · exact .inr (.inl ⟨by omega, ha.2⟩)
      · exact .inr (.inr ha)

/-- The address is free. -/
def Free (s : Spans) (a : Nat) : Prop :=
  Covered s.free a ∨ s.bump ≤ a ∧ a < s.past

/-- No span touches another one, nor the bump pointer. -/
structure Apart (bump : Nat) (l : List Span) : Prop where
  spans : l.Pairwise (·.past < ·.begin)
  bump : ∀ s ∈ l, s.past < bump

/-- The free spans of a range that begins at `lo` are in order, and made of whole units. -/
structure Tidy (unit lo : Nat) (s : Spans) : Prop where
  row : Row unit lo s.bump s.free
  apart : Apart s.bump s.free
  bump_dvd : unit ∣ s.bump
  bump_le : s.bump ≤ s.past

/-- New spans are tidy. -/
theorem tidy_new {lo past : Nat} (hdvd : unit ∣ lo) (hle : lo ≤ past) : Tidy unit lo (new lo past) :=
  ⟨Nat.le_refl lo, ⟨List.Pairwise.nil, nofun⟩, hdvd, hle⟩

/-- The remainder of a span touches nothing that the span did not touch. -/
theorem Apart.cut {bump size : Nat} {pre post : List Span} {s : Span}
    (h : Apart bump (pre ++ s :: post)) : Apart bump (pre ++ (remainder size s ++ post)) := by
  obtain ⟨hpre, hpost, hcross⟩ := List.pairwise_append.mp h.spans
  obtain ⟨hs, hpost⟩ := List.pairwise_cons.mp hpost
  have hrest : ∀ r ∈ remainder size s, s.begin ≤ r.begin ∧ r.past = s.past := fun r hr =>
    mem_remainder hr
  have hsingle : (remainder size s).Pairwise (·.past < ·.begin) := by
    unfold remainder
    split
    · exact List.pairwise_singleton _ _
    · exact List.Pairwise.nil
  refine ⟨List.pairwise_append.mpr ⟨hpre, List.pairwise_append.mpr ⟨hsingle, hpost, ?_⟩, ?_⟩, ?_⟩
  · intro r hr n hn
    rw [(hrest r hr).2]
    exact hs n hn
  · intro p hp n hn
    rcases List.mem_append.mp hn with hn | hn
    · exact Nat.lt_of_lt_of_le (hcross p hp s List.mem_cons_self) (hrest n hn).1
    · exact hcross p hp n (List.mem_cons_of_mem _ hn)
  · intro r hr
    rcases List.mem_append.mp hr with hr | hr
    · exact h.bump r (List.mem_append_left _ hr)
    · rcases List.mem_append.mp hr with hr | hr
      · rw [(hrest r hr).2]
        exact h.bump s (List.mem_append_right _ List.mem_cons_self)
      · exact h.bump r (List.mem_append_right _ (List.mem_cons_of_mem _ hr))

/-- Taking a span of whole units takes free addresses. -/
theorem Tidy.alloc {lo size begin : Nat} {s t : Spans} (h : Tidy unit lo s)
    (hdvd : unit ∣ size) (halloc : s.alloc size = some (begin, t)) :
    Tidy unit lo t ∧ t.past = s.past ∧ unit ∣ begin ∧ lo ≤ begin ∧ begin + size ≤ s.past
      ∧ (∀ a, begin ≤ a → a < begin + size → s.Free a)
      ∧ ∀ a, t.Free a ↔ s.Free a ∧ ¬ (begin ≤ a ∧ a < begin + size) := by
  have hle := h.bump_le
  unfold Spans.alloc at halloc
  -- The span comes from the first free one that is large enough, or else from behind all of them.
  cases htake : takeFirst? size s.free with
  | some found =>
      obtain ⟨begin', free⟩ := found
      rw [htake] at halloc
      obtain ⟨rfl, rfl⟩ := Prod.mk.inj (Option.some.inj halloc)
      obtain ⟨hrow, hbegin, hlo, hhi, hcov, hiff⟩ := takeFirst?_spec hdvd h.row htake
      have hapart : Apart s.bump free := by
        obtain ⟨pre, x, post, hl, -, -, rfl⟩ := takeFirst?_split htake
        exact Apart.cut (hl ▸ h.apart)
      refine ⟨⟨hrow, hapart, h.bump_dvd, hle⟩, rfl, hbegin, hlo, by omega,
        fun a h1 h2 => .inl (hcov a h1 h2), fun a => ?_⟩
      simp only [Free]
      rw [hiff a]
      constructor
      · rintro (⟨hin, hout⟩ | hin)
        · exact ⟨.inl hin, hout⟩
        · exact ⟨.inr hin, by omega⟩
      · rintro ⟨hin | hin, hout⟩
        · exact .inl ⟨hin, hout⟩
        · exact .inr hin
  | none =>
      rw [htake] at halloc
      dsimp only at halloc
      by_cases hroom : s.past - s.bump < size
      · rw [if_pos hroom] at halloc
        exact nomatch halloc
      · rw [if_neg hroom] at halloc
        obtain ⟨rfl, rfl⟩ := Prod.mk.inj (Option.some.inj halloc)
        have hbump : s.bump ≤ s.bump + size := Nat.le_add_right _ _
        have hapart : Apart (s.bump + size) s.free :=
          ⟨h.apart.spans, fun x hx => Nat.lt_of_lt_of_le (h.apart.bump x hx) hbump⟩
        refine ⟨⟨h.row.weaken_hi hbump, hapart, Nat.dvd_add h.bump_dvd hdvd, ?_⟩, rfl, h.bump_dvd,
          h.row.le, by omega, fun a h1 h2 => .inr ⟨h1, by omega⟩, fun a => ?_⟩
        · show s.bump + size ≤ s.past
          omega
        · simp only [Free]
          have hbelow : Covered s.free a → a < s.bump :=
            fun hc => (h.row.covered_bounds hc).2
          by_cases hc : Covered s.free a
          · have := hbelow hc
            simp only [hc, true_or, true_and, true_iff]
            omega
          · simp only [hc, false_or]
            omega

/-! ## Giving back -/

/-- A span that covers no free address divides the free spans. -/
theorem row_split {x : Span} {lo hi : Nat} {l : List Span} (h : Row unit lo hi l) (hx : x.Whole unit)
    (hlo : lo ≤ x.begin) (hhi : x.past ≤ hi) (hoff : ∀ a, x.Covers a → ¬ Covered l a) :
    Row unit lo x.begin (l.takeWhile (·.begin < x.begin))
      ∧ Row unit x.past hi (l.dropWhile (·.begin < x.begin)) := by
  induction l generalizing lo with
  | nil => exact ⟨hlo, hhi⟩
  | cons s rest ih =>
      obtain ⟨hs, hwhole, hrest⟩ := h
      have hxlt := hx.lt_past
      have hslt := hwhole.lt_past
      by_cases hlt : s.begin < x.begin
      · have hpast : s.past ≤ x.begin := by
          by_contra hover
          refine hoff x.begin ⟨Nat.le_refl _, hxlt⟩ (covered_cons.mpr (.inl ?_))
          exact ⟨Nat.le_of_lt hlt, Nat.lt_of_not_le hover⟩
        rw [List.takeWhile_cons_of_pos (by simpa using hlt),
          List.dropWhile_cons_of_pos (by simpa using hlt)]
        obtain ⟨hbefore, hafter⟩ := ih hrest hpast
          fun a hxa hc => hoff a hxa (covered_cons.mpr (.inr hc))
        exact ⟨⟨hs, hwhole, hbefore⟩, hafter⟩
      · have hpast : x.past ≤ s.begin := by
          by_contra hover
          refine hoff s.begin ⟨Nat.le_of_not_lt hlt, Nat.lt_of_not_le hover⟩ ?_
          exact covered_cons.mpr (.inl ⟨Nat.le_refl _, hslt⟩)
        rw [List.takeWhile_cons_of_neg (by simpa using hlt),
          List.dropWhile_cons_of_neg (by simpa using hlt)]
        exact ⟨hlo, hpast, hwhole, hrest⟩

/-- A span is merged with the ones that end where it begins. -/
theorem mergeBefore_spec {x : Span} {lo : Nat} {before : List Span} (h : Row unit lo x.begin before)
    (hx : x.Whole unit) :
    Row unit lo (mergeBefore before x).2.begin (mergeBefore before x).1
      ∧ (mergeBefore before x).2.Whole unit ∧ (mergeBefore before x).2.past = x.past
      ∧ ∀ a, Covered (mergeBefore before x).1 a ∨ (mergeBefore before x).2.Covers a ↔
        Covered before a ∨ x.Covers a := by
  unfold mergeBefore
  cases hlast : before.getLast? with
  | none => exact ⟨h, hx, rfl, fun a => Iff.rfl⟩
  | some p =>
      have hbefore := List.dropLast_append_getLast? p hlast
      dsimp only
      by_cases htouch : p.past = x.begin
      · rw [if_pos htouch]
        rw [← hbefore] at h
        obtain ⟨mid, hinit, hmid, hp, -⟩ := Row.append_iff.mp h
        have hpast : (⟨p.begin, p.size + x.size⟩ : Span).past = x.past := by
          simp only [Span.past] at *
          omega
        refine ⟨hinit.weaken_hi hmid, ⟨hp.begin_dvd, Nat.dvd_add hp.size_dvd hx.size_dvd, ?_⟩,
          hpast, fun a => ?_⟩
        · exact Nat.add_pos_left hp.size_pos _
        · conv_rhs => rw [← hbefore]
          rw [covered_append, covered_cons]
          have hplt := hp.lt_past
          have hxlt := hx.lt_past
          have hmerge : (⟨p.begin, p.size + x.size⟩ : Span).Covers a ↔ p.Covers a ∨ x.Covers a := by
            simp only [Span.Covers, hpast]
            omega
          simp only [hmerge, covered_nil, or_false, or_assoc]
      · rw [if_neg htouch]
        exact ⟨h, hx, rfl, fun a => Iff.rfl⟩

/-- A span is merged with the ones that begin where it ends. -/
theorem mergeAfter_spec {x : Span} {hi : Nat} {after : List Span} (h : Row unit x.past hi after)
    (hx : x.Whole unit) :
    Row unit (mergeAfter x after).1.past hi (mergeAfter x after).2
      ∧ (mergeAfter x after).1.Whole unit ∧ (mergeAfter x after).1.begin = x.begin
      ∧ ∀ a, (mergeAfter x after).1.Covers a ∨ Covered (mergeAfter x after).2 a ↔
        x.Covers a ∨ Covered after a := by
  cases after with
  | nil => exact ⟨h, hx, rfl, fun a => Iff.rfl⟩
  | cons n rest =>
      obtain ⟨hn, hnwhole, hrest⟩ := h
      simp only [mergeAfter]
      by_cases htouch : n.begin = x.past
      · rw [if_pos htouch]
        have hpast : (⟨x.begin, x.size + n.size⟩ : Span).past = n.past := by
          simp only [Span.past] at *
          omega
        refine ⟨hpast ▸ hrest, ⟨hx.begin_dvd, Nat.dvd_add hx.size_dvd hnwhole.size_dvd, ?_⟩, rfl,
          fun a => ?_⟩
        · exact Nat.add_pos_left hx.size_pos _
        · have hmerge : (⟨x.begin, x.size + n.size⟩ : Span).Covers a ↔ x.Covers a ∨ n.Covers a := by
            have hxlt := hx.lt_past
            have hnlt := hnwhole.lt_past
            simp only [Span.Covers, hpast]
            omega
          rw [covered_cons, hmerge, or_assoc]
      · rw [if_neg htouch]
        exact ⟨⟨hn, hnwhole, hrest⟩, hx, rfl, fun a => Iff.rfl⟩

/-- Growing a span by the one before it leaves none that it touches there. -/
theorem mergeBefore_apart {x : Span} {lo : Nat} {before : List Span} (h : Row unit lo x.begin before)
    (hapart : before.Pairwise (·.past < ·.begin)) :
    (mergeBefore before x).1.Pairwise (·.past < ·.begin)
      ∧ (∀ s ∈ (mergeBefore before x).1, s ∈ before ∧ s.past < (mergeBefore before x).2.begin) := by
  unfold mergeBefore
  cases hlast : before.getLast? with
  | none =>
      obtain rfl := List.getLast?_eq_none_iff.mp hlast
      exact ⟨List.Pairwise.nil, nofun⟩
  | some p =>
      have hbefore := List.dropLast_append_getLast? p hlast
      rw [← hbefore] at hapart h
      obtain ⟨hinit, -, hcross⟩ := List.pairwise_append.mp hapart
      have hp : ∀ s ∈ before.dropLast, s.past < p.begin := fun s hs =>
        hcross s hs p (List.mem_singleton_self p)
      dsimp only
      by_cases htouch : p.past = x.begin
      · rw [if_pos htouch]
        exact ⟨hinit, fun s hs => ⟨List.dropLast_subset _ hs, hp s hs⟩⟩
      · rw [if_neg htouch]
        obtain ⟨mid, -, hmid, hwhole, hle⟩ := Row.append_iff.mp h
        change p.past ≤ x.begin at hle
        have hplt := hwhole.lt_past
        rw [hbefore] at hapart
        refine ⟨hapart, fun s hs => ⟨hs, ?_⟩⟩
        show s.past < x.begin
        rw [← hbefore] at hs
        rcases List.mem_append.mp hs with hs | hs
        · have := hp s hs
          omega
        · obtain rfl := List.mem_singleton.mp hs
          omega

/-- Growing a span by the one after it leaves none that it touches there. -/
theorem mergeAfter_apart {x : Span} {hi : Nat} {after : List Span} (h : Row unit x.past hi after)
    (hapart : after.Pairwise (·.past < ·.begin)) :
    (mergeAfter x after).2.Pairwise (·.past < ·.begin)
      ∧ (∀ s ∈ (mergeAfter x after).2, s ∈ after ∧ (mergeAfter x after).1.past < s.begin) := by
  cases after with
  | nil => exact ⟨List.Pairwise.nil, nofun⟩
  | cons n rest =>
      obtain ⟨hn, hrest⟩ := List.pairwise_cons.mp hapart
      obtain ⟨hle, hwhole, -⟩ := h
      have hnlt := hwhole.lt_past
      simp only [mergeAfter]
      by_cases htouch : n.begin = x.past
      · rw [if_pos htouch]
        have hpast : (⟨x.begin, x.size + n.size⟩ : Span).past = n.past := by
          simp only [Span.past] at *
          omega
        exact ⟨hrest, fun s hs => ⟨List.mem_cons_of_mem _ hs, hpast ▸ hn s hs⟩⟩
      · rw [if_neg htouch]
        refine ⟨hapart, fun s hs => ⟨hs, ?_⟩⟩
        show x.past < s.begin
        rcases List.mem_cons.mp hs with rfl | hs
        · omega
        · have := hn s hs
          omega

/-- A span has grown by those that it touched, and the others are left on both sides of it. -/
structure Merged (unit lo hi : Nat) (l : List Span) (x : Span) (before : List Span) (whole : Span)
    (after : List Span) : Prop where
  row_before : Row unit lo whole.begin before
  units : whole.Whole unit
  row_after : Row unit whole.past hi after
  apart : (before ++ whole :: after).Pairwise (·.past < ·.begin)
  kept : ∀ s, s ∈ before ∨ s ∈ after → s ∈ l
  covered : ∀ a, Covered (before ++ whole :: after) a ↔ Covered l a ∨ x.Covers a

/-- A span that covers no free address merges with the free spans. -/
theorem merged_of_row {x : Span} {lo hi : Nat} {l : List Span} (h : Row unit lo hi l)
    (hapart : l.Pairwise (·.past < ·.begin)) (hx : x.Whole unit) (hlo : lo ≤ x.begin) (hhi : x.past ≤ hi)
    (hoff : ∀ a, x.Covers a → ¬ Covered l a) {before after : List Span} {grown whole : Span}
    (hbefore : mergeBefore (l.takeWhile (·.begin < x.begin)) x = (before, grown))
    (hafter : mergeAfter grown (l.dropWhile (·.begin < x.begin)) = (whole, after)) :
    Merged unit lo hi l x before whole after := by
  obtain ⟨hrow, hrow'⟩ := row_split h hx hlo hhi hoff
  have hsplit := List.takeWhile_append_dropWhile (p := (·.begin < x.begin)) (l := l)
  rw [← hsplit] at hapart
  obtain ⟨hpre, hpost, -⟩ := List.pairwise_append.mp hapart
  have hgrown := mergeBefore_spec hrow hx
  have hgap := mergeBefore_apart hrow hpre
  rw [hbefore] at hgrown hgap
  obtain ⟨hb, hg, hgpast, hbcov⟩ := hgrown
  obtain ⟨hbapart, hbgap⟩ := hgap
  rw [← hgpast] at hrow'
  have hwhole := mergeAfter_spec hrow' hg
  have hgap := mergeAfter_apart hrow' hpost
  rw [hafter] at hwhole hgap
  obtain ⟨ha, hw, hwbegin, hacov⟩ := hwhole
  obtain ⟨haapart, hagap⟩ := hgap
  dsimp only at hb hbcov hbapart hbgap ha hw hwbegin hacov haapart hagap
  rw [← hwbegin] at hb hbgap
  have hwlt := hw.lt_past
  refine ⟨hb, hw, ha, ?_, fun s hs => ?_, fun a => ?_⟩
  · refine List.pairwise_append.mpr ⟨hbapart, List.pairwise_cons.mpr
      ⟨fun n hn => (hagap n hn).2, haapart⟩, fun s hs n hn => ?_⟩
    have hleft := (hbgap s hs).2
    rcases List.mem_cons.mp hn with rfl | hn
    · exact hleft
    · have hright := (hagap n hn).2
      omega
  · rw [← hsplit, List.mem_append]
    exact hs.imp (fun hs => (hbgap s hs).1) fun hs => (hagap s hs).1
  · conv_rhs => rw [← hsplit]
    rw [covered_append, covered_cons, covered_append, or_right_comm, ← hbcov a, or_assoc, ← hacov a]

section Merged

variable {lo : Nat} {s : Spans} {x whole : Span} {before after : List Span} (h : Tidy unit lo s)
  (hm : Merged unit lo s.bump s.free x before whole after)

include h hm

/-- A span that has come to end at the bump pointer lowers it. -/
theorem Tidy.lowered (hend : whole.past = s.bump) :
    Tidy unit lo { s with free := before ++ after, bump := whole.begin }
      ∧ ∀ a, Free { s with free := before ++ after, bump := whole.begin } a ↔ s.Free a ∨ x.Covers a := by
  have hle := h.bump_le
  have hwlt := hm.units.lt_past
  -- Nothing lies between a span that ends at the bump pointer and the pointer.
  have hnone : after = [] := by
    have hrow := hm.row_after
    cases after with
    | nil => rfl
    | cons n rest =>
        have h1 := hrow.1
        have h2 := hrow.2.1.lt_past
        have h3 := hrow.2.2.le
        omega
  subst hnone
  rw [List.append_nil]
  obtain ⟨hapart, -, hcross⟩ := List.pairwise_append.mp hm.apart
  refine ⟨⟨hm.row_before, ⟨hapart, fun y hy => hcross y hy whole List.mem_cons_self⟩,
    hm.units.begin_dvd, ?_⟩, fun a => ?_⟩
  · show whole.begin ≤ s.past
    omega
  · have hjoin : (whole.begin ≤ a ∧ a < s.past) ↔ whole.Covers a ∨ (s.bump ≤ a ∧ a < s.past) := by
      rw [Span.Covers, hend]
      omega
    show Covered before a ∨ (whole.begin ≤ a ∧ a < s.past) ↔ _
    rw [Free, or_right_comm, ← hm.covered a, hjoin, covered_append, covered_cons]
    simp only [covered_nil, or_false, or_assoc]

/-- A span that ends below the bump pointer is one more free span. -/
theorem Tidy.inserted (hend : whole.past ≠ s.bump) :
    Tidy unit lo { s with free := before ++ whole :: after }
      ∧ ∀ a, Free { s with free := before ++ whole :: after } a ↔ s.Free a ∨ x.Covers a := by
  refine ⟨⟨?_, ⟨hm.apart, fun y hy => ?_⟩, h.bump_dvd, h.bump_le⟩, fun a => ?_⟩
  · exact Row.append_iff.mpr ⟨whole.begin, hm.row_before, Nat.le_refl _, hm.units, hm.row_after⟩
  · rcases List.mem_append.mp hy with hy | hy
    · exact h.apart.bump y (hm.kept y (.inl hy))
    · rcases List.mem_cons.mp hy with rfl | hy
      · exact Nat.lt_of_le_of_ne hm.row_after.le hend
      · exact h.apart.bump y (hm.kept y (.inr hy))
  · show Covered (before ++ whole :: after) a ∨ (s.bump ≤ a ∧ a < s.past) ↔ _
    rw [Free, or_right_comm, hm.covered a]

end Merged

/-- Giving back a span that was taken frees its addresses and no others. -/
theorem Tidy.release {lo : Nat} {s : Spans} {x : Span} (h : Tidy unit lo s) (hx : x.Whole unit)
    (hlo : lo ≤ x.begin) (hhi : x.past ≤ s.past) (hoff : ∀ a, x.Covers a → ¬ s.Free a) :
    Tidy unit lo (s.release x) ∧ (s.release x).past = s.past
      ∧ ∀ a, (s.release x).Free a ↔ s.Free a ∨ x.Covers a := by
  have hxlt := hx.lt_past
  -- The span lies below the bump pointer: all above it is free.
  have hbump : x.past ≤ s.bump := by
    by_contra hover
    have hlast : x.Covers (x.past - 1) := ⟨by omega, by omega⟩
    exact hoff _ hlast (.inr ⟨by omega, by omega⟩)
  unfold Spans.release
  cases hbefore : mergeBefore (s.free.takeWhile (·.begin < x.begin)) x with
  | mk before grown =>
      dsimp only
      cases hafter : mergeAfter grown (s.free.dropWhile (·.begin < x.begin)) with
      | mk whole after =>
          have hm := merged_of_row h.row h.apart.spans hx hlo hbump
            (fun a hxa hc => hoff a hxa (.inl hc)) hbefore hafter
          dsimp only
          by_cases hend : whole.past = s.bump
          · rw [if_pos hend]
            obtain ⟨htidy, hfree⟩ := h.lowered hm hend
            exact ⟨htidy, rfl, hfree⟩
          · rw [if_neg hend]
            obtain ⟨htidy, hfree⟩ := h.inserted hm hend
            exact ⟨htidy, rfl, hfree⟩

/-! ## Taking and giving back at once -/

/-- A span that nothing touches stays as it is between its neighbours. -/
theorem mergeBefore_of_apart {x : Span} {before : List Span} (h : ∀ s ∈ before, s.past < x.begin) :
    mergeBefore before x = (before, x) := by
  unfold mergeBefore
  cases hlast : before.getLast? with
  | none => rfl
  | some p =>
      have hlt := h p (List.mem_of_getLast? hlast)
      exact if_neg (Nat.ne_of_lt hlt)

/-- A span is merged with none that lie apart from it. -/
theorem mergeAfter_of_apart {x : Span} {after : List Span} (h : ∀ s ∈ after, x.past < s.begin) :
    mergeAfter x after = (x, after) := by
  cases after with
  | nil => rfl
  | cons n rest => exact if_neg (Nat.ne_of_gt (h n List.mem_cons_self))

/-- What was cut off a span, with what was left of it, is the whole span again. -/
theorem mergeAfter_remainder {size : Nat} {x : Span} {after : List Span} (hfit : size ≤ x.size)
    (h : ∀ s ∈ after, x.past < s.begin) :
    mergeAfter ⟨x.begin, size⟩ (remainder size x ++ after) = (x, after) := by
  unfold remainder
  by_cases hlt : size < x.size
  · rw [if_pos hlt]
    refine (if_pos rfl).trans ?_
    rw [Nat.add_sub_cancel' hfit]
    rfl
  · have heq : size = x.size := Nat.le_antisymm hfit (Nat.le_of_not_lt hlt)
    rw [if_neg hlt, List.nil_append, heq]
    exact mergeAfter_of_apart h

/-- A span at an address divides sorted spans into those that begin before it, and the others. -/
theorem split_at (pre post : List Span) (p : Nat) (hpre : ∀ s ∈ pre, s.begin < p)
    (hpost : ∀ s ∈ post, p ≤ s.begin) :
    (pre ++ post).takeWhile (·.begin < p) = pre ∧ (pre ++ post).dropWhile (·.begin < p) = post := by
  have hnone : post.takeWhile (·.begin < p) = [] ∧ post.dropWhile (·.begin < p) = post := by
    cases post with
    | nil => exact ⟨rfl, rfl⟩
    | cons n rest =>
        have hn := hpost n List.mem_cons_self
        rw [List.takeWhile_cons_of_neg (by simpa using hn),
          List.dropWhile_cons_of_neg (by simpa using hn)]
        exact ⟨rfl, rfl⟩
  have hall : ∀ s ∈ pre, decide (s.begin < p) = true := fun s hs => decide_eq_true (hpre s hs)
  rw [List.takeWhile_append_of_pos hall, List.dropWhile_append_of_pos hall, hnone.1, hnone.2,
    List.append_nil]
  exact ⟨rfl, rfl⟩

/-- A span that goes back where it was taken leaves everything as it was. -/
theorem Tidy.release_alloc {lo size begin : Nat} {s t : Spans} (h : Tidy unit lo s)
    (halloc : s.alloc size = some (begin, t)) : t.release ⟨begin, size⟩ = s := by
  unfold Spans.alloc at halloc
  cases htake : takeFirst? size s.free with
  | some found =>
      obtain ⟨begin', free⟩ := found
      rw [htake] at halloc
      obtain ⟨rfl, rfl⟩ := Prod.mk.inj (Option.some.inj halloc)
      obtain ⟨pre, x, post, hl, hfit, rfl, rfl⟩ := takeFirst?_split htake
      have hrow := h.row
      have hapart := h.apart
      rw [hl] at hrow hapart
      obtain ⟨mid, -, -, hx, -⟩ := Row.append_iff.mp hrow
      obtain ⟨-, hpost, hcross⟩ := List.pairwise_append.mp hapart.spans
      obtain ⟨hafter, -⟩ := List.pairwise_cons.mp hpost
      -- The span goes back to where it was cut off: nothing before it is touched, and its remainder
      -- follows.
      have hbefore : ∀ p ∈ pre, p.past < x.begin := fun p hp => hcross p hp x List.mem_cons_self
      have hbump := hapart.bump x (List.mem_append_right _ List.mem_cons_self)
      have hxlt := hx.lt_past
      obtain ⟨htakeWhile, hdropWhile⟩ := split_at pre (remainder size x ++ post)
        x.begin (fun p hp => Nat.lt_of_le_of_lt (Nat.le_add_right _ _) (hbefore p hp)) (by
          intro n hn
          rcases List.mem_append.mp hn with hn | hn
          · exact (mem_remainder hn).1
          · have := hafter n hn
            omega)
      unfold Spans.release
      dsimp only
      rw [htakeWhile, hdropWhile, mergeBefore_of_apart (x := ⟨x.begin, size⟩) hbefore]
      dsimp only
      rw [mergeAfter_remainder hfit hafter]
      dsimp only
      rw [if_neg (Nat.ne_of_lt hbump), ← hl]
  | none =>
      rw [htake] at halloc
      dsimp only at halloc
      by_cases hroom : s.past - s.bump < size
      · rw [if_pos hroom] at halloc
        exact nomatch halloc
      · rw [if_neg hroom] at halloc
        obtain ⟨rfl, rfl⟩ := Prod.mk.inj (Option.some.inj halloc)
        -- Nothing free touches the range behind all spans, so the span goes back there.
        obtain ⟨htakeWhile, hdropWhile⟩ := split_at s.free [] s.bump
          (fun x hx => Nat.lt_of_le_of_lt (Nat.le_add_right _ _) (h.apart.bump x hx)) nofun
        rw [List.append_nil] at htakeWhile hdropWhile
        unfold Spans.release
        dsimp only
        rw [htakeWhile, hdropWhile, mergeBefore_of_apart (x := ⟨s.bump, size⟩) h.apart.bump]
        refine (if_pos rfl).trans ?_
        show ({ s with free := s.free ++ [] } : Spans) = s
        rw [List.append_nil]

/-! ## Whole pages -/

/-- Sorted spans between two addresses that do not overlap. -/
def Chain (lo hi : Nat) : List Span → Prop
  | [] => lo ≤ hi
  | s :: rest => lo ≤ s.begin ∧ s.Solid ∧ Chain s.past hi rest

/-- A chain is a row of pages. -/
theorem chain_iff {lo hi : Nat} {l : List Span} : Chain lo hi l ↔ Row Pages.pageSize lo hi l := by
  induction l generalizing lo with
  | nil => exact Iff.rfl
  | cons s rest ih => exact and_congr_right fun _ => and_congr Span.solid_iff ih

theorem Chain.le {lo hi : Nat} {l : List Span} (h : Chain lo hi l) : lo ≤ hi :=
  (chain_iff.mp h).le

/-- A chain covers nothing beyond its ends. -/
theorem Chain.covered_bounds {lo hi a : Nat} {l : List Span} (h : Chain lo hi l) (ha : Covered l a) :
    lo ≤ a ∧ a < hi :=
  (chain_iff.mp h).covered_bounds ha

/-- The free spans of a range that begins at `lo` are in order. -/
structure WF (lo : Nat) (s : Spans) : Prop where
  chain : Chain lo s.bump s.free
  apart : Apart s.bump s.free
  bump_dvd : Pages.pageSize ∣ s.bump
  bump_le : s.bump ≤ s.past

/-- Spans are well-formed if they are tidy pages. -/
theorem wf_iff {lo : Nat} {s : Spans} : WF lo s ↔ Tidy Pages.pageSize lo s :=
  ⟨fun h => ⟨chain_iff.mp h.chain, h.apart, h.bump_dvd, h.bump_le⟩,
    fun h => ⟨chain_iff.mpr h.row, h.apart, h.bump_dvd, h.bump_le⟩⟩

theorem wf_new {lo past : Nat} (hdvd : Pages.pageSize ∣ lo) (hle : lo ≤ past) : WF lo (new lo past) :=
  wf_iff.mpr (tidy_new hdvd hle)

/-- Taking a span of whole pages takes free addresses. -/
theorem alloc_spec {lo size begin : Nat} {s t : Spans} (h : WF lo s)
    (hdvd : Pages.pageSize ∣ size) (halloc : s.alloc size = some (begin, t)) :
    WF lo t ∧ t.past = s.past ∧ Pages.pageSize ∣ begin ∧ lo ≤ begin ∧ begin + size ≤ s.past
      ∧ (∀ a, begin ≤ a → a < begin + size → s.Free a)
      ∧ ∀ a, t.Free a ↔ s.Free a ∧ ¬ (begin ≤ a ∧ a < begin + size) := by
  obtain ⟨htidy, hrest⟩ := (wf_iff.mp h).alloc hdvd halloc
  exact ⟨wf_iff.mpr htidy, hrest⟩

/-- Giving back a span of whole pages that was taken frees its addresses and no others. -/
theorem release_spec {lo : Nat} {s : Spans} {x : Span} (h : WF lo s) (hx : x.Solid)
    (hlo : lo ≤ x.begin) (hhi : x.past ≤ s.past) (hoff : ∀ a, x.Covers a → ¬ s.Free a) :
    WF lo (s.release x) ∧ (s.release x).past = s.past
      ∧ ∀ a, (s.release x).Free a ↔ s.Free a ∨ x.Covers a := by
  obtain ⟨htidy, hrest⟩ := (wf_iff.mp h).release (Span.solid_iff.mp hx) hlo hhi hoff
  exact ⟨wf_iff.mpr htidy, hrest⟩

/-- Pages that go back where they were taken leave everything as it was. -/
theorem release_alloc {lo size begin : Nat} {s t : Spans} (h : WF lo s)
    (halloc : s.alloc size = some (begin, t)) : t.release ⟨begin, size⟩ = s :=
  (wf_iff.mp h).release_alloc halloc

end Spans

end GuardedHeap
