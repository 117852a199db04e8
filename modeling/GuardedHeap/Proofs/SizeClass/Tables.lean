import GuardedHeap.Proofs.SizeClass.Splines
import Mathlib.Algebra.BigOperators.Fin
import Mathlib.Order.Bounds.Basic

/-! # Tables — what building one from a spline comes to

    Building a table looks at the spline first and then runs one loop for
    each segment, which goes up by steps until it is past the last anchor.
    Neither part overruns, whatever words the spline is made of: the number
    of classes is counted only after every step was seen to be at least
    eight (`exists_countFrom`), and a loop stops one step above an anchor
    that is at most the greatest power of two (`Segment.climbs_rungs`).

    A spline that passes lays the table out (`Spline.LaysOut`): which sizes
    there are, how many, with which cache sizes, and that looking a size up
    finds the least class that holds it.  `ofSpline?_lays_out` says so of
    every spline. -/

namespace GuardedHeap

open SizeClass

namespace SizeClass

/-! ## The loop of one segment -/

/-- The loop that fills a segment with sizes: it goes on as long as the size is not past `last`,
    and every pass adds the step.  Nothing bounds the number of passes. -/
inductive Climbs (step last : Nat) : (size : Nat) → (sizes : List Nat) → Prop where
  | past {size : Nat} (hpast : last < size) : Climbs step last size []
  | pass {size next : Nat} {sizes : List Nat} (hle : size ≤ last)
      (hnext : Word.add size step = .ok next) (hrest : Climbs step last next sizes) :
      Climbs step last size (size :: sizes)

/-- A loop that a whole number of steps leads past the last size runs to its end. -/
theorem climbs_range {step last n size : Nat} (hstep : 0 < step) (hroom : last + step < Word.limit)
    (hsteps : size + n * step = last + step) :
    Climbs step last size ((List.range n).map (size + · * step)) := by
  induction n generalizing size with
  | zero =>
      refine Climbs.past ?_
      omega
  | succ n ih =>
      rw [Nat.succ_mul] at hsteps
      have hle : size ≤ last := by omega
      have hadd : Word.add size step = .ok (size + step) := Word.add_eq_ok.mpr ⟨by omega, rfl⟩
      have hsteps' : size + step + n * step = last + step := by omega
      have hrest := ih hsteps'
      rw [List.range_succ_eq_map, List.map_cons, List.map_map, Nat.zero_mul, Nat.add_zero]
      have hshift : (List.range n).map (size + step + · * step)
          = (List.range n).map ((size + · * step) ∘ Nat.succ) := by
        refine List.map_congr_left fun i _ => ?_
        show size + step + i * step = size + (i + 1) * step
        rw [Nat.succ_mul]
        omega
      rw [hshift] at hrest
      exact Climbs.pass hle hadd hrest

namespace Segment

variable {g : Segment}

theorem length_rungs (g : Segment) : g.rungs.length = (g.last - g.first) / g.step := by
  simp [rungs]

/-- The rungs are told by their sizes. -/
theorem map_size_rungs (g : Segment) :
    (g.rungs.map (·.size)).map (⟨·, g.maxCached⟩ : Nat → Entry) = g.rungs := by
  simp [rungs]

/-- The loop of a sound segment ends by itself, with the sizes of its rungs. -/
theorem climbs_rungs (h : g.Sound) (hroom : g.last + g.step < Word.limit) :
    Climbs g.step g.last (g.first + g.step) (g.rungs.map (·.size)) := by
  have hlt := h.lt
  have hsteps : (g.last - g.first) / g.step * g.step = g.last - g.first := Nat.div_mul_cancel h.dvd
  have hreach : g.first + g.step + (g.last - g.first) / g.step * g.step = g.last + g.step := by omega
  have hclimbs := climbs_range h.step_pos hroom hreach
  have hsizes : g.rungs.map (·.size)
      = (List.range ((g.last - g.first) / g.step)).map (g.first + g.step + · * g.step) := by
    simp [rungs]
  rw [hsizes]
  exact hclimbs

/-- The topmost rung is the last anchor. -/
theorem Sound.last_mem (h : g.Sound) : g.last ∈ g.rungs.map (·.size) := by
  have hlt := h.lt
  have hsteps : (g.last - g.first) / g.step * g.step = g.last - g.first := Nat.div_mul_cancel h.dvd
  have hpos : 0 < (g.last - g.first) / g.step :=
    Nat.div_pos (Nat.le_of_dvd (Nat.sub_pos_of_lt hlt) h.dvd) h.step_pos
  obtain ⟨top, htop⟩ : ∃ top, (g.last - g.first) / g.step = top + 1 := ⟨_, (Nat.sub_one_add_one_eq_of_pos hpos).symm⟩
  rw [htop, Nat.succ_mul] at hsteps
  refine List.mem_map.mpr ⟨⟨g.first + g.step + top * g.step, g.maxCached⟩, ?_, ?_⟩
  · refine List.mem_map.mpr ⟨top, ?_, rfl⟩
    rw [htop]
    exact List.mem_range.mpr (Nat.lt_succ_self top)
  · show g.first + g.step + top * g.step = g.last
    omega

/-- A step is at most as large as the segment, so that there is room for one more. -/
theorem Sound.room (h : g.Sound) (hlast : g.last ≤ Word.signLimit) (hfirst : 0 < g.first) :
    g.last + g.step < Word.limit := by
  have hlt := h.lt
  have hstep := Nat.le_of_dvd (Nat.sub_pos_of_lt hlt) h.dvd
  simp only [Word.signLimit, Word.limit] at *
  omega

end Segment

namespace Linked

variable {lo hi : Nat} {gs : List Segment}

/-- Every segment lies between the two ends. -/
theorem mem_bounds (h : Linked lo hi gs) {g : Segment} (hg : g ∈ gs) :
    g.Sound ∧ lo ≤ g.first ∧ g.last ≤ hi := by
  induction gs generalizing lo with
  | nil => exact nomatch hg
  | cons g' rest ih =>
      obtain ⟨rfl, hsound, hrest⟩ := h
      rcases List.mem_cons.mp hg with rfl | hg
      · exact ⟨hsound, Nat.le_refl _, hrest.le⟩
      · obtain ⟨hsound', hlo, hhi⟩ := ih hrest hg
        exact ⟨hsound', Nat.le_trans (Nat.le_of_lt hsound.lt) hlo, hhi⟩

/-- A rung between the anchors of a segment is one of the segment's own. -/
theorem maxCached_eq (h : Linked lo hi gs) {g : Segment} (hg : g ∈ gs) {e : Entry}
    (he : e ∈ gs.flatMap Segment.rungs) (hfirst : g.first < e.size) (hlast : e.size ≤ g.last) :
    e.maxCached = g.maxCached := by
  induction gs generalizing lo with
  | nil => exact nomatch hg
  | cons g' rest ih =>
      obtain ⟨rfl, hsound, hrest⟩ := h
      rw [List.flatMap_cons] at he
      rcases List.mem_cons.mp hg with rfl | hg
      · rcases List.mem_append.mp he with he | he
        · exact Segment.maxCached_of_mem he
        · have habove := (hrest.rungs_bounds he).1
          omega
      · rcases List.mem_append.mp he with he | he
        · have hbelow := (hsound.rungs_bounds he).2
          have habove := (hrest.mem_bounds hg).2.1
          omega
        · exact ih hrest hg he

end Linked

/-! ## Validation does not overrun -/

/-- Counting stays in the word: a segment has at most an eighth of a word of classes. -/
theorem exists_countFrom {gs : List Segment} (hsound : ∀ g ∈ gs, g.Sound)
    (hlast : ∀ g ∈ gs, g.last < Word.limit) {n : Nat}
    (hn : n + gs.length * (Word.limit / Shadow.granule) < Word.limit) :
    ∃ count, Spline.countFrom n gs = .ok count := by
  induction gs generalizing n with
  | nil => exact ⟨n, rfl⟩
  | cons g rest ih =>
      obtain ⟨hg, hsound⟩ := List.forall_mem_cons.mp hsound
      obtain ⟨hglast, hlast⟩ := List.forall_mem_cons.mp hlast
      have hgranule : Shadow.granule ≤ g.step := Nat.le_of_dvd hg.step_pos hg.step_dvd
      have hclasses : (g.last - g.first) / g.step ≤ Word.limit / Shadow.granule :=
        Nat.div_le_div (Nat.le_of_lt (Nat.lt_of_le_of_lt (Nat.sub_le _ _) hglast)) hgranule (by decide)
      rw [List.length_cons, Nat.succ_mul] at hn
      have hadd : Word.add n ((g.last - g.first) / g.step) = .ok (n + (g.last - g.first) / g.step) :=
        Word.add_eq_ok.mpr ⟨by omega, rfl⟩
      unfold Spline.countFrom
      rw [hadd]
      exact ih hsound hlast (by omega)

namespace Spline

variable {s : Spline}

theorem lasts_lt (hwords : s.Words) : ∀ g ∈ s.segments, g.last < Word.limit := by
  unfold segments
  simp only [List.forall_mem_cons]
  exact ⟨hwords.anchors _ (Vector.getElem_mem _), hwords.anchors _ (Vector.getElem_mem _),
    hwords.anchors _ (Vector.getElem_mem _), hwords.anchors _ (Vector.getElem_mem _),
    hwords.anchors _ (Vector.getElem_mem _), nofun⟩

/-- Looking for a fault comes to an answer for every spline. -/
theorem exists_fault? (hwords : s.Words) : ∃ fault, s.fault? = .ok fault := by
  unfold fault?
  split
  · exact ⟨_, rfl⟩
  split
  · exact ⟨_, rfl⟩
  cases hfault : segmentFault? 0 s.segments with
  | some e => exact ⟨some e, rfl⟩
  | none =>
      have hlength : s.segments.length = segmentCount := rfl
      obtain ⟨count, hcount⟩ := exists_countFrom (n := 1) (sound_of_segmentFault? hfault)
        (lasts_lt hwords) (by rw [hlength]; decide)
      dsimp only
      rw [hcount]
      exact ⟨_, rfl⟩

/-- What a table has in common with the spline that it is built from. -/
structure LaysOut (s : Spline) (t : SizeClasses) : Prop where
  /-- The sizes go up. -/
  sorted : t.sizes.Pairwise (· < ·)
  /-- They are whole quanta. -/
  dvd : ∀ size ∈ t.sizes, quantum ∣ size
  /-- They begin at the first anchor, … -/
  head : t.sizes.head? = some (s.anchors.get 0)
  /-- … pass through all of them, … -/
  anchor_mem : ∀ a ∈ s.anchors, a ∈ t.sizes
  /-- … and end at the last one, which is a power of two. -/
  getLast : t.sizes.getLast? = some s.anchors[5]
  maxSize_eq : t.maxSize = s.anchors[5]
  isPowerOfTwo : ∃ k, s.anchors[5] = 2 ^ k
  /-- Each segment adds as many as its step fits in. -/
  count_eq : t.count =
    1 + ∑ i : Fin segmentCount, (s.anchors.get i.succ - s.anchors.get i.castSucc) / s.steps.get i
  count_le : t.count ≤ maxClasses
  /-- The cache sizes are those of the segments. -/
  maxCached_zero : t.maxCached 0 = s.maxCached[0]
  maxCached_eq : ∀ g ∈ s.segments, ∀ id < t.count, g.first < t.size id → t.size id ≤ g.last →
    t.maxCached id = g.maxCached
  /-- A size belongs to the least class that holds it. -/
  classOf? : ∀ size ≤ t.maxSize,
    ∃ id, t.classOf? size = some id ∧ IsLeast {id | id < t.count ∧ size ≤ t.size id} id
  classOf?_above : ∀ size, t.maxSize < size → t.classOf? size = none
  classOf?_size : ∀ id < t.count, t.classOf? (t.size id) = some id

/-- The classes are one for the first anchor and as many for each segment as its step fits in. -/
theorem length_rungs (s : Spline) : (s.segments.flatMap Segment.rungs).length
    = ∑ i : Fin segmentCount, (s.anchors.get i.succ - s.anchors.get i.castSucc) / s.steps.get i := by
  rw [Fin.sum_univ_five]
  simp only [segments, List.flatMap_cons, List.flatMap_nil, List.append_nil, List.length_append,
    Segment.length_rungs, Nat.add_assoc]
  rfl

/-- Every anchor but for the first ends a segment. -/
theorem anchor_cases {a : Nat} (ha : a ∈ s.anchors) : a = s.first ∨ ∃ g ∈ s.segments, g.last = a := by
  obtain ⟨i, hi, rfl⟩ := Vector.mem_iff_getElem.mp ha
  unfold segments
  match i, hi with
  | 0, _ => exact .inl rfl
  | 1, _ => exact .inr ⟨_, .head _, rfl⟩
  | 2, _ => exact .inr ⟨_, .tail _ (.head _), rfl⟩
  | 3, _ => exact .inr ⟨_, .tail _ (.tail _ (.head _)), rfl⟩
  | 4, _ => exact .inr ⟨_, .tail _ (.tail _ (.tail _ (.head _))), rfl⟩
  | 5, _ => exact .inr ⟨_, .tail _ (.tail _ (.tail _ (.tail _ (.head _)))), rfl⟩

end Spline

end SizeClass

/-! ## Looking a size up -/

namespace SizeClasses

variable {t : SizeClasses}

namespace Lawful

theorem lt_count_of_le_maxSize (h : t.Lawful) {size : Nat} (hsize : size ≤ t.maxSize) :
    t.entries.toList.countP (·.size < size) < t.count := by
  have hlast : t.count - 1 < t.entries.toList.length := Nat.sub_one_lt (Nat.ne_of_gt h.count_pos)
  -- The last class is not smaller, so at most the others are counted.
  have hmono : t.entries.toList.countP (·.size < size)
      ≤ t.entries.toList.countP (·.size < t.entries.toList[t.count - 1].size) := by
    refine List.countP_mono_left fun e _ he => ?_
    rw [decide_eq_true_eq] at he ⊢
    rw [← size_eq_getElem hlast]
    exact Nat.lt_of_lt_of_le he hsize
  rw [countP_lt_getElem h.sorted hlast] at hmono
  exact Nat.lt_of_le_of_lt hmono hlast

/-- The class of a size is the least one that holds it. -/
theorem isLeast_classOf? (h : t.Lawful) {size : Nat} (hsize : size ≤ t.maxSize) :
    ∃ id, t.classOf? size = some id ∧ IsLeast {id | id < t.count ∧ size ≤ t.size id} id := by
  have hlt := h.lt_count_of_le_maxSize hsize
  have hlt' : t.entries.toList.countP (·.size < size) < t.entries.toList.length := hlt
  refine ⟨t.entries.toList.countP (·.size < size), ?_, ⟨hlt, ?_⟩, ?_⟩
  · unfold classOf?
    rw [if_neg (Nat.not_lt.mpr hsize)]
  · rw [size_eq_getElem hlt']
    exact le_of_countP_le size h.sorted hlt' (Nat.le_refl _)
  · intro id hid
    obtain ⟨hid, hholds⟩ := hid
    have hid' : id < t.entries.toList.length := hid
    -- What is smaller than the size is smaller than a class that holds it.
    rw [size_eq_getElem hid'] at hholds
    calc t.entries.toList.countP (·.size < size)
        ≤ t.entries.toList.countP (·.size < t.entries.toList[id].size) := by
          refine List.countP_mono_left fun e _ he => ?_
          rw [decide_eq_true_eq] at he ⊢
          exact Nat.lt_of_lt_of_le he hholds
      _ = id := countP_lt_getElem h.sorted hid'

theorem size_le_size (h : t.Lawful) {i j : Nat} (hij : i ≤ j) (hj : j < t.count) : t.size i ≤ t.size j := by
  rcases Nat.eq_or_lt_of_le hij with rfl | hlt
  · exact Nat.le_refl _
  · have hj' : j < t.entries.toList.length := hj
    rw [size_eq_getElem (Nat.lt_trans hlt hj'), size_eq_getElem hj']
    exact Nat.le_of_lt (List.pairwise_iff_getElem.mp h.sorted i j (Nat.lt_trans hlt hj') hj' hlt)

/-- The class of a size at an alignment that the largest class has is the least one that holds the size and
    has the alignment. -/
theorem isLeast_alignedClassOf? (h : t.Lawful) {size alignment : Nat} (hpos : 0 < alignment)
    (hsize : size ≤ t.maxSize) (hdvd : alignment ∣ t.maxSize) :
    ∃ id, t.alignedClassOf? size alignment = .ok (some id)
      ∧ IsLeast {id | id < t.count ∧ size ≤ t.size id ∧ alignment ∣ t.size id} id := by
  obtain ⟨first, hfirst, ⟨hcount, hholds⟩, hleast⟩ := h.isLeast_classOf? hsize
  unfold alignedClassOf?
  rw [hfirst]
  dsimp only
  rw [if_neg (Nat.ne_of_gt hpos), List.find?_map]
  cases hfind : (List.range (t.count - first)).find?
      ((fun id => decide (t.size id % alignment = 0)) ∘ (first + ·)) with
  | none =>
      -- The largest class would do.
      have hnone := List.find?_range_eq_none.mp hfind (t.count - 1 - first) (by omega)
      rw [Function.comp_apply, show first + (t.count - 1 - first) = t.count - 1 by omega] at hnone
      simp only [Bool.not_eq_true', decide_eq_false_iff_not] at hnone
      exact absurd (Nat.mod_eq_zero_of_dvd hdvd) hnone
  | some j =>
      obtain ⟨hj, hmem, hbefore⟩ := List.find?_range_eq_some.mp hfind
      rw [Function.comp_apply, decide_eq_true_eq] at hj
      have hlt : first + j < t.count := by
        have := List.mem_range.mp hmem
        omega
      refine ⟨first + j, rfl, ⟨hlt, ?_, Nat.dvd_of_mod_eq_zero hj⟩, ?_⟩
      · exact Nat.le_trans hholds (h.size_le_size (Nat.le_add_right _ _) hlt)
      · rintro id ⟨hid, hle, halign⟩
        have hge := hleast ⟨hid, hle⟩
        by_contra hnot
        have hskipped := hbefore (id - first) (by omega)
        rw [Function.comp_apply, show first + (id - first) = id by omega] at hskipped
        simp only [Bool.not_eq_true', decide_eq_false_iff_not] at hskipped
        exact hskipped (Nat.mod_eq_zero_of_dvd halign)

end Lawful

/-- The size of a class is one of the table's sizes, and the other way round. -/
theorem mem_sizes {size : Nat} : size ∈ t.sizes ↔ ∃ id < t.count, t.size id = size := by
  unfold sizes
  constructor
  · intro hmem
    obtain ⟨e, he, rfl⟩ := List.mem_map.mp hmem
    obtain ⟨id, hid, rfl⟩ := List.getElem_of_mem he
    exact ⟨id, hid, Lawful.size_eq_getElem hid⟩
  · rintro ⟨id, hid, rfl⟩
    obtain ⟨e, he, heq⟩ := size_eq hid
    rw [heq]
    exact List.mem_map_of_mem he

/-- A class is one of the table's entries. -/
theorem exists_entry {id : Nat} (hid : id < t.count) :
    ∃ e ∈ t.entries.toList, t.size id = e.size ∧ t.maxCached id = e.maxCached := by
  refine ⟨t.entries[id], Array.mem_toList_iff.mpr (Array.getElem_mem hid), ?_, ?_⟩
  · rw [size, Array.getElem?_eq_getElem hid]
    rfl
  · rw [maxCached, Array.getElem?_eq_getElem hid]
    rfl

theorem getLast?_sizes (hcount : 0 < t.count) : t.sizes.getLast? = some t.maxSize := by
  have hlast : t.count - 1 < t.entries.toList.length := Nat.sub_one_lt (Nat.ne_of_gt hcount)
  have hlength : t.sizes.length = t.count := List.length_map ..
  rw [List.getLast?_eq_getElem?, hlength]
  unfold sizes maxSize
  rw [List.getElem?_map, List.getElem?_eq_getElem hlast, Lawful.size_eq_getElem hlast]
  rfl

/-! ## Building a table -/

/-- What is known of a spline whose table is accepted. -/
theorem lays_out_of_ofSpline? {s : Spline} (hwords : s.Words) (h : ofSpline? s = .ok (.ok t)) :
    s.LaysOut t := by
  obtain ⟨hfault, hentries⟩ := of_ofSpline? hwords h
  obtain ⟨-, -, hlast, hlinked, -⟩ := Spline.of_fault? hfault
  have hlawful : t.Lawful := Accepted.lawful ⟨s, hwords, h⟩
  have hsizes : t.sizes = s.first :: (s.segments.flatMap Segment.rungs).map (·.size) := by
    unfold sizes
    rw [hentries]
    rfl
  have hanchor : ∀ a ∈ s.anchors, a ∈ t.sizes := by
    intro a ha
    rw [hsizes]
    rcases Spline.anchor_cases ha with rfl | ⟨g, hg, rfl⟩
    · exact List.mem_cons_self
    · obtain ⟨e, he, heq⟩ := List.mem_map.mp (hlinked.mem_bounds hg).1.last_mem
      exact List.mem_cons_of_mem _ (List.mem_map.mpr ⟨e, List.mem_flatMap.mpr ⟨g, hg, he⟩, heq⟩)
  have hmaxSize : t.maxSize = s.anchors[5] := by
    apply Nat.le_antisymm
    · obtain ⟨e, he, heq⟩ := size_eq (Nat.sub_one_lt (Nat.ne_of_gt hlawful.count_pos))
      rw [maxSize, heq]
      rw [hentries] at he
      rcases List.mem_cons.mp he with rfl | he
      · exact hlinked.le
      · exact (hlinked.rungs_bounds he).2
    · obtain ⟨id, hid, heq⟩ := mem_sizes.mp (hanchor s.anchors[5] (Vector.getElem_mem _))
      rw [← heq]
      exact hlawful.size_le_maxSize hid
  constructor
  case sorted => exact List.pairwise_map.mpr hlawful.sorted
  case dvd =>
    intro size hsize
    obtain ⟨e, he, rfl⟩ := List.mem_map.mp hsize
    exact hlawful.dvd e he
  case head => rw [hsizes]; rfl
  case anchor_mem => exact hanchor
  case getLast => rw [getLast?_sizes hlawful.count_pos, hmaxSize]
  case maxSize_eq => exact hmaxSize
  case isPowerOfTwo => exact Word.isPowerOfTwo_iff.mp hlast
  case count_eq =>
    show t.entries.toList.length = _
    rw [hentries, List.length_cons, Spline.length_rungs, Nat.add_comm]
  case count_le => exact hlawful.count_le
  case maxCached_zero =>
    have hhead : t.entries[0]? = some ⟨s.first, s.maxCached[0]⟩ := by
      rw [← Array.getElem?_toList, hentries]
      rfl
    rw [maxCached, hhead]
    rfl
  case maxCached_eq =>
    intro g hg id hid hfirst hle
    obtain ⟨e, he, hsize, hcached⟩ := exists_entry hid
    rw [hsize] at hfirst hle
    rw [hcached]
    rw [hentries] at he
    rcases List.mem_cons.mp he with rfl | he
    · -- The class of the first anchor is below every segment.
      have hbelow := (hlinked.mem_bounds hg).2.1
      exact absurd hfirst (Nat.not_lt.mpr hbelow)
    · exact hlinked.maxCached_eq hg he hfirst hle
  case classOf? => exact fun size hsize => hlawful.isLeast_classOf? hsize
  case classOf?_above => exact fun size hsize => if_pos hsize
  case classOf?_size => exact fun id hid => hlawful.classOf?_size hid

/-- The largest class of an accepted table is aligned to every power of two that is not larger. -/
theorem Accepted.dvd_maxSize (h : t.Accepted) {alignment : Nat} (halign : Word.isPowerOfTwo alignment = true)
    (hle : alignment ≤ t.maxSize) : alignment ∣ t.maxSize := by
  obtain ⟨s, hwords, hbuild⟩ := h
  have hlays := lays_out_of_ofSpline? hwords hbuild
  refine Word.dvd_of_powerOfTwo_le halign ?_ hle
  rw [hlays.maxSize_eq]
  exact Word.isPowerOfTwo_iff.mpr hlays.isPowerOfTwo

/-- Building a table comes to an answer for every spline that words can hold.  If the spline is
    accepted then the loop of each segment ends by itself in the classes of the segment, without
    an overrun, and the spline lays the table out. -/
theorem ofSpline?_lays_out (s : Spline) (hwords : s.Words) :
    ∃ answer, ofSpline? s = .ok answer ∧ ∀ t, answer = .ok t →
      (∀ g ∈ s.segments, ∃ start sizes, Word.add g.first g.step = .ok start
        ∧ Climbs g.step g.last start sizes ∧ g.entries = .ok (sizes.map (⟨·, g.maxCached⟩)))
      ∧ s.LaysOut t := by
  obtain ⟨fault, hfault⟩ := Spline.exists_fault? hwords
  cases fault with
  | some e =>
      refine ⟨.error e, ?_, nofun⟩
      unfold ofSpline?
      rw [hfault]
      rfl
  | none =>
      have hbuild := ofSpline?_eq hwords hfault
      refine ⟨.ok (ofSpline s), hbuild, ?_⟩
      rintro t ⟨⟩
      obtain ⟨hfirst, -, hlast, hlinked, -⟩ := Spline.of_fault? hfault
      refine ⟨?_, lays_out_of_ofSpline? hwords hbuild⟩
      intro g hg
      obtain ⟨hsound, hlo, hhi⟩ := hlinked.mem_bounds hg
      have hroom := hsound.room (Nat.le_trans hhi (Spline.last_le hwords hlast)) (Nat.lt_of_lt_of_le hfirst hlo)
      refine ⟨g.first + g.step, g.rungs.map (·.size), ?_, Segment.climbs_rungs hsound hroom, ?_⟩
      · have hlt := hsound.lt
        exact Word.add_eq_ok.mpr ⟨by omega, rfl⟩
      · rw [Segment.entries_eq hsound hroom, Segment.map_size_rungs]

/-- A spline up to the greatest power of two, past which its last loop still goes one step. -/
def towering : Spline where
  anchors := #v[2 ^ 58, 2 ^ 59, 2 ^ 60, 2 ^ 61, 2 ^ 62, 2 ^ 63]
  steps := #v[2 ^ 58, 2 ^ 58, 2 ^ 59, 2 ^ 60, 2 ^ 62]
  maxCached := #v[4, 3, 2, 1, 0]

theorem towering_lays_out :
    towering.Words ∧ ∃ t, ofSpline? towering = .ok (.ok t) ∧ t.count = 9 ∧ towering.LaysOut t := by
  have hwords : towering.Words := by constructor <;> decide
  obtain ⟨answer, hanswer, hlays⟩ := ofSpline?_lays_out towering hwords
  have hbuild : ofSpline? towering = .ok (.ok (ofSpline towering)) :=
    ofSpline?_eq hwords (by decide +kernel)
  obtain rfl : answer = .ok (ofSpline towering) := Except.ok.inj (hanswer.symm.trans hbuild)
  have hcount : (ofSpline towering).count = 9 := by decide +kernel
  exact ⟨hwords, ofSpline towering, hbuild, hcount, (hlays _ rfl).2⟩

end SizeClasses

end GuardedHeap
