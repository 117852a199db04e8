import GuardedHeap.Proofs.Run.Tally
import GuardedHeap.Proofs.Tight

/-! # Gauges of runs — no difference that is shown was cut off at zero

    The blocks that users have and those that wait have places of their own
    among the addresses that are committed, and the heap knows how many
    these are (`Heap.WF.sum_size_le`).  So what is in use and what is
    quarantined never add up to more than the size of the heap
    (`Run.gauges_exact`), as long as the counter of bytes has not wrapped. -/

namespace GuardedHeap

open Quarantine (Entry)

namespace Heap

variable {h : Heap}

/-- The addresses committed for the blocks of a class. -/
def regionPlaces (h : Heap) (c : Nat) : Finset Nat :=
  Finset.Ico (h.regionBegin c) (h.regionBegin c + ((h.regions[c]?).map (·.mappedUser)).getD 0)

/-- The addresses committed for blocks, with the mappings of the large ones. -/
def places (h : Heap) : Finset Nat :=
  (Finset.range h.regions.size).biUnion h.regionPlaces
    ∪ h.large.bodies.toFinset.biUnion fun l => Finset.Ico l.mapBegin (l.mapBegin + l.mapSize)

theorem mem_places {a : Nat} : a ∈ h.places ↔ a ∈ h.committed := by
  have hregions : a ∈ (Finset.range h.regions.size).biUnion h.regionPlaces ↔
      ∃ c r, h.regions[c]? = some r ∧ h.regionBegin c ≤ a ∧ a < h.regionBegin c + r.mappedUser := by
    rw [Finset.mem_biUnion]
    constructor
    · rintro ⟨c, hc, ha⟩
      have hr := Array.getElem?_eq_getElem (Finset.mem_range.mp hc)
      unfold regionPlaces at ha
      rw [hr] at ha
      exact ⟨c, _, hr, Finset.mem_Ico.mp ha⟩
    · rintro ⟨c, r, hr, ha⟩
      refine ⟨c, Finset.mem_range.mpr (lt_size_of_region hr), ?_⟩
      unfold regionPlaces
      rw [hr]
      exact Finset.mem_Ico.mpr ha
  have hlarge : a ∈ h.large.bodies.toFinset.biUnion
      (fun l => Finset.Ico l.mapBegin (l.mapBegin + l.mapSize)) ↔
        ∃ l ∈ h.large.bodies, a ∈ l.mapping := by
    rw [Finset.mem_biUnion]
    exact exists_congr fun l => and_congr List.mem_toFinset Finset.mem_Ico
  exact Finset.mem_union.trans (or_congr hregions hlarge)

/-- A sum over the places of a list, bounded by one over its elements. -/
theorem sum_range_le_foldr {α : Type} (f : α → Nat) (l : List α) (g : Nat → Nat)
    (h : ∀ i a, l[i]? = some a → g i ≤ f a) :
    ∑ i ∈ Finset.range l.length, g i ≤ l.foldr (fun a n => f a + n) 0 := by
  induction l generalizing g with
  | nil => exact Nat.le_refl _
  | cons a rest ih =>
      rw [List.length_cons, Finset.sum_range_succ', List.foldr_cons, Nat.add_comm]
      exact Nat.add_le_add (h 0 a rfl) (ih (fun i => g (i + 1)) fun i b hb => h (i + 1) b hb)

/-- The heap knows of every committed address. -/
theorem WF.card_places_le (hwf : h.WF) (htight : h.large.Tight) : h.places.card ≤ h.totalUsed := by
  refine Nat.le_trans (Finset.card_union_le _ _) (Nat.add_le_add ?_ ?_)
  · refine Nat.le_trans Finset.card_biUnion_le ?_
    refine sum_range_le_foldr h.regionUsed h.regions.toList (fun c => (h.regionPlaces c).card) ?_
    intro c r hr
    rw [Array.getElem?_toList] at hr
    have hregion := hwf.region c r hr
    unfold regionPlaces regionUsed
    rw [hr, Nat.card_Ico, Nat.add_sub_cancel_left]
    exact Nat.le_min.mpr ⟨Nat.le_add_right _ _, hregion.mappedUser_le⟩
  · rw [htight.totalMapped]
    have hnodup : h.large.bodies.Nodup := hwf.large.users_nodup.of_map
    calc (h.large.bodies.toFinset.biUnion fun l => Finset.Ico l.mapBegin (l.mapBegin + l.mapSize)).card
        ≤ ∑ l ∈ h.large.bodies.toFinset, (Finset.Ico l.mapBegin (l.mapBegin + l.mapSize)).card :=
          Finset.card_biUnion_le
      _ = ∑ l ∈ h.large.bodies.toFinset, l.mapSize :=
          Finset.sum_congr rfl fun l _ => by rw [Nat.card_Ico, Nat.add_sub_cancel_left]
      _ = (h.large.bodies.map (·.mapSize)).sum := List.sum_toFinset _ hnodup

/-- Blocks are no larger than the heap. -/
theorem WF.sum_size_le (hwf : h.WF) (htight : h.large.Tight) {bs : Finset Block}
    (hbs : ∀ b ∈ bs, b ∈ h.blocks) : ∑ b ∈ bs, b.size ≤ h.totalUsed :=
  Nat.le_trans (hwf.tiled.sum_size_le hbs fun b hb _ ha =>
    mem_places.mpr (hwf.extent_subset (hbs b hb) ha)) (hwf.card_places_le htight)

end Heap

namespace Run

variable {marked : Prop} {past : List Occurrence} {s : Sanitizer}

/-- The counters of chunks are words. -/
theorem counters_lt_limit (h : Run False marked past s) {k : Counter} (hk : k ∈ Counter.ofChunks) :
    s.metrics.value k < Word.limit := by
  induction h with
  | start hinit hcalm =>
      obtain ⟨-, hfresh⟩ := begins hinit hcalm
      rw [hfresh.metrics]
      cases k <;> decide
  | snoc hbefore hstep hfails hmarks ih =>
      obtain ⟨ds, hcomes, -⟩ := hstep.comes hbefore.fit hbefore.sound hfails hmarks
      exact (hcomes.counts not_false).lt_limit k hk ih

/-- The counters of large blocks are those of the live ones. -/
theorem tight (h : Run False marked past s) : s.heap.large.Tight :=
  h.lasts Sanitizer.lasting_tight fun s hfresh => by
    obtain ⟨begin, size, hnew⟩ := hfresh.heap.large
    rw [hnew]
    exact .new begin size

/-- The sizes that users have and the bytes of the queue have room in the heap. -/
theorem in_use_le (h : Run False marked past s) {bs : Finset Block}
    (hbs : (s.scene s.threads 0).Users bs) :
    (Scene.sizes bs).sum + s.quarantine.bytes ≤ s.heap.totalUsed := by
  have hsound := h.sound
  have hqueue : (s.quarantine.queue : Multiset Entry) ≤ (s.scene s.threads 0).waiting := by
    rw [Sanitizer.waiting_scene]
    exact Multiset.coe_le.mpr (List.sublist_append_left _ _).subperm
  obtain ⟨ws, hws, hweight⟩ := hsound.waiting_blocks hqueue
  have hdisjoint : Disjoint bs ws := Finset.disjoint_left.mpr fun b hb hw =>
    nomatch ((hbs b).mp hb).2.symm.trans (hws b hw).2.1
  calc (Scene.sizes bs).sum + s.quarantine.bytes
      = ∑ b ∈ bs, b.record.requestedSize + ∑ b ∈ ws, b.size := by
        rw [h.fit.queue, hweight]
        rfl
    _ ≤ ∑ b ∈ bs, b.size + ∑ b ∈ ws, b.size := by
        refine Nat.add_le_add_right (Finset.sum_le_sum fun b hb => ?_) _
        obtain ⟨hin, hstate⟩ := (hbs b).mp hb
        have hfits := hsound.fits b hin (by rw [hstate]; decide)
        have hbegin := hfits.begin_le
        have hpast : b.record.userBegin + b.record.requestedSize < b.begin + b.size := hfits.lt_past
        omega
    _ = ∑ b ∈ bs ∪ ws, b.size := (Finset.sum_union hdisjoint).symm
    _ ≤ s.heap.totalUsed := by
        refine h.fit.heap.sum_size_le h.tight fun b hb => ?_
        exact (Finset.mem_union.mp hb).elim (fun hb => ((hbs b).mp hb).1) fun hw => (hws b hw).1

/-- As long as no call of the operating system fails and less than a word of bytes has been
    allocated in all, no difference in the statistics is cut off at zero: the bytes in use are those
    that were allocated without those that were freed, and together with the bytes of the quarantine
    they are part of the heap. -/
theorem gauges_exact (h : Run False marked past s)
    (hword : (past.map Occurrence.requested).sum < Word.limit) :
    s.metrics.bytesAllocated = (past.map Occurrence.requested).sum
    ∧ (s.metrics.currentAllocatedBytes : ℤ) = s.metrics.bytesAllocated - s.metrics.bytesFreed
    ∧ s.metrics.currentAllocatedBytes + s.gauges.quarantineBytes ≤ s.gauges.heapSize
    ∧ (s.stats.freeBytes : ℤ) =
      s.gauges.heapSize - s.metrics.currentAllocatedBytes - s.gauges.quarantineBytes := by
  obtain ⟨bs, asked, returned, htallies⟩ := h.tallies
  have hin := h.in_use_le htallies.users
  have hrest := congrArg Multiset.sum htallies.rest
  rw [Multiset.sum_add, Multiset.sum_coe, Multiset.sum_coe] at hrest
  have hasked := htallies.requested
  -- Counters are words, and so are the numbers that they stand for.
  have hexact : ∀ {k : Counter} {n : Nat}, k ∈ Counter.ofChunks → n < Word.limit →
      (s.metrics.value k : ZMod Word.limit) = n → s.metrics.value k = n := by
    intro k n hk hn heq
    have hmod := (ZMod.natCast_eq_natCast_iff' _ _ _).mp heq
    rwa [Nat.mod_eq_of_lt (h.counters_lt_limit hk), Nat.mod_eq_of_lt hn] at hmod
  have hallocated : s.metrics.bytesAllocated = asked.sum :=
    hexact (k := .bytesAllocated) (by decide) (by omega) htallies.bytesAllocated
  have hfreed : s.metrics.bytesFreed = returned.sum :=
    hexact (k := .bytesFreed) (by decide) (by omega) htallies.bytesFreed
  have hcurrent : s.metrics.currentAllocatedBytes = (Scene.sizes bs).sum := by
    unfold Metrics.currentAllocatedBytes
    omega
  have hfree : s.stats.freeBytes =
      s.heap.totalUsed - s.metrics.currentAllocatedBytes - s.quarantine.bytes := rfl
  have hheap : s.gauges.heapSize = s.heap.totalUsed := rfl
  have hquarantine : s.gauges.quarantineBytes = s.quarantine.bytes := rfl
  refine ⟨hallocated.trans hasked, ?_, ?_, ?_⟩
  · omega
  · omega
  · rw [hfree, hheap, hquarantine]
    omega

/-- A chunk is freed and another one moved; the queue takes both old ones at once. -/
theorem gauges_exact_moved :
    ∃ past s, Run False True past s
      ∧ (past.map Occurrence.requested = [0, 100, 15, 0, 40, 1000000]
        ∧ s.metrics.bytesAllocated = (past.map Occurrence.requested).sum)
      ∧ (s.stats.freeBytes, s.gauges.heapSize) = (19970840, 20971520)
      ∧ (s.metrics.currentAllocatedBytes, s.gauges.quarantineBytes) = (1000040, 640)
      ∧ s.metrics.currentAllocatedBytes + s.gauges.quarantineBytes ≤ s.gauges.heapSize
      ∧ (s.stats.freeBytes : ℤ) =
        s.gauges.heapSize - s.metrics.currentAllocatedBytes - s.gauges.quarantineBytes := by
  obtain ⟨past, s, hrun, hcheck⟩ := of_plays False True
    (show Request.plays { useFakeStack := false, threadQuarantineSize := 0 } .counter {}
      [.call .register, .call (.allocate 0 100 8 .malloc 0), .call (.calloc 0 3 5),
        .call (.free 0 17686675325056 .malloc 0), .call (.reallocate 0 17660905521280 40),
        .call (.allocate 0 1000000 8 .malloc 0)]
      (fun past s => past.map Occurrence.requested == [0, 100, 15, 0, 40, 1000000]
        && (s.stats.freeBytes, s.gauges.heapSize) == (19970840, 20971520)
        && (s.metrics.currentAllocatedBytes, s.gauges.quarantineBytes) == (1000040, 640))
      = true by decide +kernel)
    (by simp [Request.Fits, Operation.Marks])
  simp only [Bool.and_eq_true, beq_iff_eq] at hcheck
  obtain ⟨⟨hrequested, hheap⟩, huse⟩ := hcheck
  obtain ⟨hallocated, -, hle, hfree⟩ := gauges_exact hrun (by rw [hrequested]; decide)
  exact ⟨past, s, hrun, ⟨hrequested, hallocated⟩, hheap, huse, hle, hfree⟩

end Run

end GuardedHeap
