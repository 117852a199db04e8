import GuardedHeap.Proofs.Rounding
import GuardedHeap.Proofs.SizeClass

/-! # Splines — the tables that validation lets through

    A heap can be given any table that a spline builds, if validation finds
    no fault in the spline.  Validation looks at each segment for itself;
    what it says of a segment (`Segment.Sound`) is enough to know its sizes
    in closed form (`Segment.rungs`), and since each segment begins where
    the one before ends (`Linked`) the sizes of all of them are in order.
    No sum of an anchor and a step leaves the word, because the last anchor
    is a power of two and the first one is not zero
    (`Linked.segmentEntries_eq`).

    A table that is accepted is `Lawful`.  Unlike the built-in ones it may
    have any cache sizes, zero among them. -/

namespace GuardedHeap

open SizeClass

namespace SizeClass

/-! ## One segment -/

/-- Climbing gives as many sizes as fit, if there is room for one step more. -/
theorem climb_eq {step last n size : Nat} (hroom : last + step < Word.limit)
    (h : size + n * step ≤ last + step) :
    climb step last n size = .ok ((List.range n).map (size + · * step)) := by
  induction n generalizing size with
  | zero => rfl
  | succ n ih =>
      rw [Nat.succ_mul] at h
      have hle : size ≤ last := by omega
      have hadd : Word.add size step = .ok (size + step) := Word.add_eq_ok.mpr ⟨by omega, rfl⟩
      have hrest : climb step last n (size + step) = _ := ih (by omega)
      unfold climb
      rw [if_pos hle, hadd]
      show (climb step last n (size + step) >>= fun rest => pure (size :: rest)) = _
      rw [hrest, List.range_succ_eq_map, List.map_cons, List.map_map, Nat.zero_mul, Nat.add_zero]
      refine congrArg (fun rest => Except.ok (size :: rest)) (List.map_congr_left fun i _ => ?_)
      show size + step + i * step = size + (i + 1) * step
      rw [Nat.succ_mul]
      omega

namespace Segment

/-- The segment goes up by whole steps, and its step is made of granules. -/
structure Sound (g : Segment) : Prop where
  step_pos : 0 < g.step
  step_dvd : Shadow.granule ∣ g.step
  lt : g.first < g.last
  dvd : g.step ∣ g.last - g.first

/-- The classes of the segment but for its first anchor. -/
def rungs (g : Segment) : List Entry :=
  (List.range ((g.last - g.first) / g.step)).map fun i => ⟨g.first + g.step + i * g.step, g.maxCached⟩

variable {g : Segment} {e : Entry}

/-- The entries of a segment are its rungs. -/
theorem entries_eq (h : g.Sound) (hroom : g.last + g.step < Word.limit) : g.entries = .ok g.rungs := by
  have hlt := h.lt
  have hsteps : (g.last - g.first) / g.step * g.step = g.last - g.first := Nat.div_mul_cancel h.dvd
  have hadd : Word.add g.first g.step = .ok (g.first + g.step) := Word.add_eq_ok.mpr ⟨by omega, rfl⟩
  have hclimb : climb g.step g.last ((g.last - g.first) / g.step) (g.first + g.step) = _ :=
    climb_eq hroom (by rw [hsteps]; omega)
  unfold entries
  rw [hadd]
  show (climb _ _ _ _ >>= fun sizes => pure (sizes.map _)) = _
  rw [hclimb]
  exact congrArg Except.ok List.map_map

/-- The rungs of a segment lie behind its first anchor, up to the last. -/
theorem Sound.rungs_bounds (h : g.Sound) (he : e ∈ g.rungs) : g.first < e.size ∧ e.size ≤ g.last := by
  obtain ⟨i, hi, rfl⟩ := List.mem_map.mp he
  have hsteps : (g.last - g.first) / g.step * g.step = g.last - g.first := Nat.div_mul_cancel h.dvd
  have hmul := Nat.mul_le_mul_right g.step (Nat.succ_le_of_lt (List.mem_range.mp hi))
  have hpos := h.step_pos
  have hlt := h.lt
  rw [Nat.succ_mul, hsteps] at hmul
  show g.first < g.first + g.step + i * g.step ∧ g.first + g.step + i * g.step ≤ g.last
  omega

/-- The rungs of a segment go up. -/
theorem Sound.rungs_sorted (h : g.Sound) : g.rungs.Pairwise (·.size < ·.size) := by
  refine List.pairwise_map.mpr (List.pairwise_lt_range.imp fun {i j} hij => ?_)
  exact Nat.add_lt_add_left (Nat.mul_lt_mul_of_pos_right hij h.step_pos) _

/-- The sizes of a segment that begins with whole granules are whole granules. -/
theorem Sound.rungs_dvd (h : g.Sound) (hfirst : Shadow.granule ∣ g.first) (he : e ∈ g.rungs) :
    Shadow.granule ∣ e.size := by
  obtain ⟨i, -, rfl⟩ := List.mem_map.mp he
  exact Nat.dvd_add (Nat.dvd_add hfirst h.step_dvd) (Nat.dvd_mul_left_of_dvd h.step_dvd i)

theorem Sound.last_dvd (h : g.Sound) (hfirst : Shadow.granule ∣ g.first) : Shadow.granule ∣ g.last := by
  have hsum := Nat.dvd_add hfirst (Nat.dvd_trans h.step_dvd h.dvd)
  rwa [Nat.add_sub_cancel' (Nat.le_of_lt h.lt)] at hsum

/-- The rungs have the segment's cache size. -/
theorem maxCached_of_mem (he : e ∈ g.rungs) : e.maxCached = g.maxCached := by
  obtain ⟨i, -, rfl⟩ := List.mem_map.mp he
  rfl

end Segment

/-! ## All segments -/

/-- Segments that lead from one anchor to another. -/
def Linked (lo hi : Nat) : List Segment → Prop
  | [] => lo = hi
  | g :: rest => g.first = lo ∧ g.Sound ∧ Linked g.last hi rest

namespace Linked

variable {lo hi : Nat} {gs : List Segment} {e : Entry}

/-- Linked segments end behind where they begin. -/
theorem le (h : Linked lo hi gs) : lo ≤ hi := by
  induction gs generalizing lo with
  | nil => exact Nat.le_of_eq h
  | cons g rest ih =>
      obtain ⟨rfl, hsound, hrest⟩ := h
      exact Nat.le_trans (Nat.le_of_lt hsound.lt) (ih hrest)

/-- The rungs of linked segments lie between their ends. -/
theorem rungs_bounds (h : Linked lo hi gs) (he : e ∈ gs.flatMap Segment.rungs) :
    lo < e.size ∧ e.size ≤ hi := by
  induction gs generalizing lo with
  | nil => exact nomatch he
  | cons g rest ih =>
      obtain ⟨rfl, hsound, hrest⟩ := h
      have hlt := hsound.lt
      have hle := hrest.le
      rw [List.flatMap_cons] at he
      rcases List.mem_append.mp he with he | he
      · have := hsound.rungs_bounds he
        omega
      · have := ih hrest he
        omega

/-- The rungs of linked segments go up. -/
theorem rungs_sorted (h : Linked lo hi gs) : (gs.flatMap Segment.rungs).Pairwise (·.size < ·.size) := by
  induction gs generalizing lo with
  | nil => exact List.Pairwise.nil
  | cons g rest ih =>
      obtain ⟨rfl, hsound, hrest⟩ := h
      rw [List.flatMap_cons]
      refine List.pairwise_append.mpr ⟨hsound.rungs_sorted, ih hrest, fun e he e' he' => ?_⟩
      exact Nat.lt_of_le_of_lt (hsound.rungs_bounds he).2 (hrest.rungs_bounds he').1

/-- The sizes of linked segments are whole granules if the first one begins with such a size. -/
theorem rungs_dvd (h : Linked lo hi gs) (hlo : Shadow.granule ∣ lo) (he : e ∈ gs.flatMap Segment.rungs) :
    Shadow.granule ∣ e.size := by
  induction gs generalizing lo with
  | nil => exact nomatch he
  | cons g rest ih =>
      obtain ⟨rfl, hsound, hrest⟩ := h
      rw [List.flatMap_cons] at he
      rcases List.mem_append.mp he with he | he
      · exact hsound.rungs_dvd hlo he
      · exact ih hrest (hsound.last_dvd hlo) he

/-- The segments are built without an overrun: a step is less than the anchor that it leads to. -/
theorem segmentEntries_eq (h : Linked lo hi gs) (hlo : 0 < lo) (hhi : hi ≤ Word.signLimit) :
    segmentEntries gs = .ok (gs.flatMap Segment.rungs) := by
  induction gs generalizing lo with
  | nil => rfl
  | cons g rest ih =>
      obtain ⟨rfl, hsound, hrest⟩ := h
      have hlt := hsound.lt
      have hle := hrest.le
      have hstep := Nat.le_of_dvd (Nat.sub_pos_of_lt hlt) hsound.dvd
      have hroom : g.last + g.step < Word.limit := by
        simp only [Word.signLimit, Word.limit] at *
        omega
      unfold segmentEntries
      rw [Segment.entries_eq hsound hroom, ih hrest (Nat.zero_lt_of_lt hlt)]
      rfl

end Linked

/-- Counting counts the rungs. -/
theorem countFrom_eq_ok {n count : Nat} {gs : List Segment} (h : Spline.countFrom n gs = .ok count) :
    count = n + (gs.flatMap Segment.rungs).length := by
  induction gs generalizing n with
  | nil => exact (Except.ok.inj h).symm
  | cons g rest ih =>
      unfold Spline.countFrom at h
      cases hadd : Word.add n ((g.last - g.first) / g.step) with
      | error o =>
          rw [hadd] at h
          exact nomatch h
      | ok m =>
          rw [hadd] at h
          obtain ⟨-, rfl⟩ := Word.add_eq_ok.mp hadd
          have hlength : g.rungs.length = (g.last - g.first) / g.step := by
            rw [Segment.rungs, List.length_map, List.length_range]
          rw [ih h, List.flatMap_cons, List.length_append, hlength, Nat.add_assoc]

/-! ## Validation -/

/-- Where no fault is found the segments are sound. -/
theorem sound_of_segmentFault? {i : Nat} {gs : List Segment} (h : Spline.segmentFault? i gs = none) :
    ∀ g ∈ gs, g.Sound := by
  induction gs generalizing i with
  | nil => nofun
  | cons g rest ih =>
      unfold Spline.segmentFault? at h
      split at h
      · exact nomatch h
      rename_i hstep
      split at h
      · exact nomatch h
      rename_i hrange
      simp only [Bool.or_eq_true, Bool.not_eq_true', decide_eq_true_eq, not_or, Bool.not_eq_false] at hstep
      simp only [Bool.or_eq_true, decide_eq_true_eq, not_or, ne_eq, not_not] at hrange
      have hquantum : Shadow.granule ≤ g.step := Nat.le_of_not_lt hstep.2
      refine List.forall_mem_cons.mpr ⟨⟨Nat.lt_of_lt_of_le (by decide) hquantum, ?_, by omega,
        Nat.dvd_of_mod_eq_zero hrange.2⟩, ih h⟩
      exact Word.dvd_of_powerOfTwo_le (by decide) hstep.1 hquantum

namespace Spline

/-- Every number of the spline is a word. -/
structure Words (s : Spline) : Prop where
  anchors : ∀ a ∈ s.anchors, a < Word.limit
  steps : ∀ a ∈ s.steps, a < Word.limit
  maxCached : ∀ a ∈ s.maxCached, a < Word.limit

variable {s : Spline}

/-- What a spline without a fault is like. -/
theorem of_fault? (h : s.fault? = .ok none) :
    0 < s.first ∧ Shadow.granule ∣ s.first ∧ Word.isPowerOfTwo s.last = true
      ∧ Linked s.first s.last s.segments
      ∧ 1 + (s.segments.flatMap Segment.rungs).length ≤ maxClasses := by
  unfold fault? at h
  split at h
  · exact nomatch h
  rename_i hfirst
  split at h
  · exact nomatch h
  rename_i hlast
  rw [not_or, not_not] at hfirst
  rw [Bool.not_eq_true', Bool.not_eq_false] at hlast
  cases hfault : segmentFault? 0 s.segments with
  | some e =>
      rw [hfault] at h
      exact nomatch h
  | none =>
      rw [hfault] at h
      -- The checks come in the order ends, segments, number of classes.
      have hsound := sound_of_segmentFault? hfault
      refine ⟨Nat.pos_of_ne_zero hfirst.1, Nat.dvd_of_mod_eq_zero hfirst.2, hlast, ?_, ?_⟩
      · unfold segments at hsound ⊢
        simp only [List.forall_mem_cons] at hsound
        obtain ⟨h0, h1, h2, h3, h4, -⟩ := hsound
        exact ⟨rfl, h0, rfl, h1, rfl, h2, rfl, h3, rfl, h4, rfl⟩
      · cases hcount : countFrom 1 s.segments with
        | error o =>
            rw [hcount] at h
            exact nomatch h
        | ok count =>
            rw [hcount] at h
            rw [← countFrom_eq_ok hcount]
            by_contra hmany
            replace h : (if count > maxClasses then some (SizeClassError.tooManyClasses count) else none) = none :=
              Except.ok.inj h
            rw [if_pos (Nat.lt_of_not_le hmany)] at h
            exact nomatch h

/-- A power of two that is a word is at most the greatest one. -/
theorem last_le (hwords : s.Words) (hlast : Word.isPowerOfTwo s.last = true) : s.last ≤ Word.signLimit := by
  have hlimit : s.last < Word.limit := hwords.anchors _ (Vector.getElem_mem _)
  obtain ⟨k, hk⟩ := Word.isPowerOfTwo_iff.mp hlast
  rw [hk] at hlimit ⊢
  have hk' : k < 64 := (Nat.pow_lt_pow_iff_right (show 1 < 2 by decide)).mp hlimit
  exact Nat.pow_le_pow_right (show 0 < 2 by decide) (Nat.le_of_lt_succ hk')

/-- The table of a spline without a fault. -/
theorem entries_eq (hwords : s.Words) (h : s.fault? = .ok none) :
    s.entries = .ok (⟨s.first, s.maxCached[0]⟩ :: s.segments.flatMap Segment.rungs) := by
  obtain ⟨hfirst, -, hlast, hlinked, -⟩ := of_fault? h
  unfold entries
  rw [hlinked.segmentEntries_eq hfirst (last_le hwords hlast)]
  rfl

end Spline

end SizeClass

/-! ## Accepted tables -/

namespace SizeClasses

variable {t : SizeClasses} {id : Nat}

/-- Validation accepts a spline that builds the table. -/
def Accepted (t : SizeClasses) : Prop :=
  ∃ s : Spline, s.Words ∧ ofSpline? s = .ok (.ok t)

/-- What every accepted table is like. -/
structure Lawful (t : SizeClasses) : Prop where
  sorted : t.entries.toList.Pairwise (·.size < ·.size)
  pos : ∀ e ∈ t.entries.toList, 0 < e.size
  dvd : ∀ e ∈ t.entries.toList, Shadow.granule ∣ e.size
  size_le : ∀ e ∈ t.entries.toList, e.size ≤ Word.signLimit
  batch : ∀ e ∈ t.entries.toList, e.maxCached < Word.limit
  count_pos : 0 < t.count
  count_le : t.count ≤ maxClasses

/-- A spline without a fault builds its table. -/
theorem ofSpline?_eq {s : Spline} (hwords : s.Words) (h : s.fault? = .ok none) :
    ofSpline? s = .ok (.ok (ofSpline s)) := by
  unfold ofSpline? ofSpline
  rw [h, Spline.entries_eq hwords h]
  rfl

/-- The map of a spline without faults is accepted. -/
theorem accepted_of_fault? {s : Spline} (hwords : s.Words) (h : s.fault? = .ok none) :
    (ofSpline s).Accepted :=
  ⟨s, hwords, ofSpline?_eq hwords h⟩

theorem accepted_default : default.Accepted :=
  accepted_of_fault? (by constructor <;> decide) (by decide)

theorem accepted_compact : compact.Accepted :=
  accepted_of_fault? (by constructor <;> decide) (by decide)

/-- A table that is accepted is made of the first anchor and the rungs of all segments. -/
theorem of_ofSpline? {s : Spline} (hwords : s.Words) (h : ofSpline? s = .ok (.ok t)) :
    s.fault? = .ok none
      ∧ t.entries.toList = ⟨s.first, s.maxCached[0]⟩ :: s.segments.flatMap Segment.rungs := by
  unfold ofSpline? at h
  cases hfault : s.fault? with
  | error o =>
      rw [hfault] at h
      exact nomatch h
  | ok fault =>
      rw [hfault] at h
      cases fault with
      | some e => exact nomatch h
      | none =>
          rw [Spline.entries_eq hwords hfault] at h
          obtain rfl : (⟨(⟨s.first, s.maxCached[0]⟩ :: s.segments.flatMap Segment.rungs).toArray⟩ :
              SizeClasses) = t := Except.ok.inj (Except.ok.inj h)
          exact ⟨rfl, rfl⟩

/-- What is accepted is lawful. -/
theorem Accepted.lawful (h : t.Accepted) : t.Lawful := by
  obtain ⟨s, hwords, hbuild⟩ := h
  obtain ⟨hfault, hentries⟩ := of_ofSpline? hwords hbuild
  obtain ⟨hfirst, hdvd, hlast, hlinked, hcount⟩ := Spline.of_fault? hfault
  have hle := Spline.last_le hwords hlast
  have hlength : t.count = (s.segments.flatMap Segment.rungs).length + 1 := by
    show t.entries.toList.length = _
    rw [hentries, List.length_cons]
  have hbatch : ∀ g ∈ s.segments, g.maxCached < Word.limit := by
    unfold Spline.segments
    simp only [List.forall_mem_cons]
    exact ⟨hwords.maxCached _ (Vector.getElem_mem _), hwords.maxCached _ (Vector.getElem_mem _),
      hwords.maxCached _ (Vector.getElem_mem _), hwords.maxCached _ (Vector.getElem_mem _),
      hwords.maxCached _ (Vector.getElem_mem _), nofun⟩
  constructor
  · rw [hentries]
    exact List.pairwise_cons.mpr ⟨fun e he => (hlinked.rungs_bounds he).1, hlinked.rungs_sorted⟩
  · rw [hentries]
    exact List.forall_mem_cons.mpr ⟨hfirst, fun e he => Nat.zero_lt_of_lt (hlinked.rungs_bounds he).1⟩
  · rw [hentries]
    exact List.forall_mem_cons.mpr ⟨hdvd, fun e he => hlinked.rungs_dvd hdvd he⟩
  · rw [hentries]
    refine List.forall_mem_cons.mpr ⟨Nat.le_trans hlinked.le hle, fun e he => ?_⟩
    exact Nat.le_trans (hlinked.rungs_bounds he).2 hle
  · rw [hentries]
    refine List.forall_mem_cons.mpr ⟨hwords.maxCached _ (Vector.getElem_mem _), fun e he => ?_⟩
    obtain ⟨g, hg, he⟩ := List.mem_flatMap.mp he
    rw [Segment.maxCached_of_mem he]
    exact hbatch g hg
  · rw [hlength]
    exact Nat.succ_pos _
  · rwa [hlength, Nat.add_comm]

namespace Lawful

/-- No class is empty. -/
theorem size_pos (h : t.Lawful) (hid : id < t.count) : 0 < t.size id := by
  obtain ⟨e, he, heq⟩ := size_eq hid
  rw [heq]
  exact h.pos e he

/-- The size of a class is one of whole granules. -/
theorem dvd_size (h : t.Lawful) (hid : id < t.count) : Shadow.granule ∣ t.size id := by
  obtain ⟨e, he, heq⟩ := size_eq hid
  rw [heq]
  exact h.dvd e he

/-- No class is larger than half of the address space. -/
theorem size_le_signLimit (h : t.Lawful) (hid : id < t.count) : t.size id ≤ Word.signLimit := by
  obtain ⟨e, he, heq⟩ := size_eq hid
  rw [heq]
  exact h.size_le e he

/-- In a sorted list as many elements are smaller than one of them as stand before it. -/
theorem countP_lt_getElem {l : List Entry} (h : l.Pairwise (·.size < ·.size)) {i : Nat}
    (hi : i < l.length) : l.countP (·.size < l[i].size) = i := by
  induction l generalizing i with
  | nil => exact absurd hi (Nat.not_lt_zero i)
  | cons e rest ih =>
      obtain ⟨hhead, htail⟩ := List.pairwise_cons.mp h
      cases i with
      | zero =>
          refine List.countP_eq_zero.mpr fun e' he' => ?_
          show ¬ decide (e'.size < e.size) = true
          rw [decide_eq_true_eq, Nat.not_lt]
          rcases List.mem_cons.mp he' with rfl | he'
          · exact Nat.le_refl _
          · exact Nat.le_of_lt (hhead e' he')
      | succ j =>
          have hj : j < rest.length := Nat.lt_of_succ_lt_succ hi
          show (e :: rest).countP (·.size < rest[j].size) = j + 1
          have hlt := hhead _ (List.getElem_mem hj)
          rw [List.countP_cons_of_pos (by simpa using hlt), ih htail hj]

theorem size_eq_getElem (hid : id < t.entries.toList.length) :
    t.size id = t.entries.toList[id].size := by
  unfold size
  rw [Array.getElem?_eq_getElem hid]
  rfl

/-- No class is larger than the largest. -/
theorem size_le_maxSize (h : t.Lawful) (hid : id < t.count) : t.size id ≤ t.maxSize := by
  have hlast : t.count - 1 < t.entries.toList.length := Nat.sub_one_lt (Nat.ne_of_gt h.count_pos)
  have hid' : id < t.entries.toList.length := hid
  unfold maxSize
  rcases Nat.lt_or_eq_of_le (Nat.le_sub_one_of_lt hid) with hlt | heq
  · rw [size_eq_getElem hid', size_eq_getElem hlast]
    exact Nat.le_of_lt (List.pairwise_iff_getElem.mp h.sorted _ _ _ _ hlt)
  · rw [← heq]

/-- The size of a class is served by the class. -/
theorem classOf?_size (h : t.Lawful) (hid : id < t.count) : t.classOf? (t.size id) = some id := by
  have hid' : id < t.entries.toList.length := hid
  unfold classOf?
  rw [if_neg (Nat.not_lt.mpr (h.size_le_maxSize hid)), size_eq_getElem hid']
  exact congrArg some (countP_lt_getElem h.sorted hid')

end Lawful

end SizeClasses

end GuardedHeap
