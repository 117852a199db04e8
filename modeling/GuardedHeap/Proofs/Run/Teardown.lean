import GuardedHeap.Proofs.Run.Accounts
import GuardedHeap.Proofs.Sanitizer.Teardown

/-! # Teardown — shutting down leaks nothing

    When every chunk was freed and every thread is gone, all small blocks
    are in their regions after the sanitizer was shut down, and the
    secondary range is as it was made (`Run.shutdown_leaks_nothing`). -/

namespace GuardedHeap

open Quarantine (Entry)

namespace Sanitizer

variable {failing marked : Prop} {s t : Sanitizer}

/-- No block is with a user if no user has a chunk. -/
theorem live_eq_nil (hfit : s.Fit failing s.threads) (hnone : ∀ b ∈ s.heap.blocks, b.record.state ≠ .allocated)
    (k : BlockClass) {l : List Nat} (hl : ∀ p, p ∈ l ↔ ∃ b ∈ s.heap.blocks, b.kind = k ∧ b.begin = p) :
    s.heap.live l = [] := by
  refine List.eq_nil_iff_forall_not_mem.mpr fun p hp => ?_
  obtain ⟨b, hb, -, -, hstate⟩ := (hfit.heap.mem_live hl).mp hp
  exact hnone b hb hstate

/-- No user has a chunk if none of the blocks is live. -/
theorem userChunk?_eq_none (hfit : s.Fit failing s.threads)
    (hsound : Scene.Sound failing marked (s.scene s.threads 0))
    (hsmall : ∀ c, c < s.heap.regions.size → s.heap.live (s.heap.carved c) = [])
    (hlarge : s.heap.live s.heap.linked = []) (p : Nat) : s.heap.userChunk? p = none := by
  have hwf := hfit.heap
  cases hfind : s.heap.userChunk? p with
  | none => rfl
  | some k =>
      obtain ⟨b, hb, -, hstate, -⟩ := (Redzone.userChunk?_eq_some hwf hsound.fits).mp hfind
      cases hkind : b.kind with
      | small c =>
          have hc : c < s.heap.regions.size := by
            rcases hb with ⟨slot, ⟨r, hr, -⟩, rfl⟩ | ⟨l, -, rfl⟩
            · obtain rfl : slot.classId = c := BlockClass.small.inj hkind
              exact Heap.lt_size_of_region hr
            · exact nomatch hkind
          have hlive := (hwf.mem_live fun p => hwf.mem_carved).mpr ⟨b, hb, hkind, rfl, hstate⟩
          rw [hsmall c hc] at hlive
          exact nomatch hlive
      | large =>
          have hlive := (hwf.mem_live fun p => Heap.WF.mem_linked).mpr ⟨b, hb, hkind, rfl, hstate⟩
          rw [hlarge] at hlive
          exact nomatch hlive

/-- Where nothing waits nothing waits anywhere. -/
theorem waitingAt_eq_zero (hnone : s.waiting = []) (k : BlockClass) : s.waitingAt k = 0 := by
  unfold waitingAt
  rw [hnone]
  rfl

/-- Nothing was freed yet. -/
theorem Fresh.balanced (hfresh : s.Fresh) : s.Balanced s.threads 0 := by
  unfold Balanced
  rw [hfresh.metrics, waiting_scene]
  unfold waiting
  rw [hfresh.queue, hfresh.threads]
  exact ⟨by decide, rfl⟩

end Sanitizer

/-- What leaves the quarantine was there. -/
theorem Deed.allChunks_evict_subset (es : List Entry) (cs : Set Block) :
    Deed.allChunks (es.map .evict) cs ⊆ cs := by
  induction es generalizing cs with
  | nil => exact fun _ hb => hb
  | cons e rest ih => exact fun b hb => (ih _ hb).1

namespace Run

variable {marked : Prop} {past : List Occurrence} {s : Sanitizer}

/-- In a run without failures that ends with no chunk and no thread, shutting down gives every carved
    block back to its region, and leaves the secondary range as it was made; as many chunks were
    recycled as were freed. -/
theorem shutdown_leaks_nothing (h : Run False marked past s) (hthreads : s.threads = [])
    (hfreed : ∀ p, s.heap.userChunk? p = none) :
    ∃ stats t, s.shutdown = .ok stats t
      ∧ (∀ c, (t.heap.free c).Perm (t.heap.carved c))
      ∧ t.heap.large.blocks = [] ∧ t.heap.large.head = 0 ∧ t.heap.large.count = 0
      ∧ t.heap.large.totalMapped = 0
      ∧ t.heap.large.spans = Spans.new t.heap.primaryEnd t.heap.space.endAddr
      ∧ stats.count .recycledChunks = stats.count .frees
      ∧ stats.gauges.quarantineChunks = 0 ∧ stats.gauges.quarantineBytes = 0
      ∧ stats.gauges.liveLargeChunks = 0 := by
  obtain ⟨stats, t, u, hshut, hu, hcomes, hgone, hstacks, hqueue, hgauges, hcounters⟩ :=
    Sanitizer.ends_shutdown h.fit h.sound hthreads
  have hheap : u.heap = t.heap := by rw [hu]
  have hfit := hcomes.fit
  have hsound := hcomes.sound h.sound
  have hlasts := hcomes.lasts ⟨not_false, h.fit, h.sound⟩
  -- Nothing waits, nobody has a block, and no thread has a fake stack.
  have hwaiting : u.waiting = [] := by
    unfold Sanitizer.waiting
    rw [hgone, hqueue]
    rfl
  have hchunks : ∀ b ∈ u.heap.blocks, b.record.state ≠ .allocated := by
    intro b hb hstate
    have hin : b ∈ (u.scene u.threads 0).chunks := ⟨hb, by rw [hstate]; decide⟩
    rw [h.sound.chunks_moves hcomes.moves] at hin
    have hold := (Deed.allChunks_evict_subset _ _ hin).1
    have hfound := (Redzone.userChunk?_eq_some h.fit.heap h.sound.fits).mpr ⟨b, hold, rfl, hstate, rfl⟩
    rw [hfreed] at hfound
    exact nomatch hfound
  have hunowned : u.fakeStacks = [] := by
    have howned := h.lasts Sanitizer.lasting_owned fun s hfresh o ho => by
      rw [hfresh.fakeStacks] at ho
      exact nomatch ho
    rw [hstacks]
    refine List.eq_nil_iff_forall_not_mem.mpr fun o ho => ?_
    have hin := howned o ho
    rw [hthreads] at hin
    exact nomatch hin
  have hsmall : ∀ c, (u.heap.free c).Perm (u.heap.carved c) := by
    intro c
    have haccounts := Sanitizer.small_accounts hfit hsound not_false c
    rw [Sanitizer.live_eq_nil hfit hchunks (.small c) fun p => hfit.heap.mem_carved,
      Sanitizer.waitingAt_eq_zero hwaiting _, Multiset.coe_nil, add_zero, add_zero] at haccounts
    unfold Sanitizer.idleSmall at haccounts
    rw [hgone, List.flatMap_nil, Multiset.coe_nil, add_zero] at haccounts
    exact (Multiset.coe_eq_coe.mp haccounts).symm
  have hbodies : u.heap.large.bodies = [] := by
    have haccounts := Sanitizer.large_accounts hfit hsound not_false
    rw [Sanitizer.live_eq_nil hfit hchunks .large fun p => Heap.WF.mem_linked,
      Sanitizer.waitingAt_eq_zero hwaiting _, hunowned] at haccounts
    exact List.map_eq_nil_iff.mp (Multiset.coe_eq_zero _ |>.mp haccounts)
  have htight := hlasts _ Sanitizer.lasting_tight <| h.lasts Sanitizer.lasting_tight fun s hfresh => by
    obtain ⟨begin, size, hnew⟩ := hfresh.heap.large
    rw [hnew]
    exact .new begin size
  obtain ⟨hblocks, hhead, hcount, htotal, hspans⟩ := htight.eq_new hfit.heap.large hbodies
  rw [hfit.heap.layout.large_begin, hfit.heap.layout.large_past] at hspans
  have hbalanced := hlasts _ Sanitizer.lasting_balanced <|
    h.lasts Sanitizer.lasting_balanced fun s hfresh => hfresh.balanced
  have hequal : stats.count .recycledChunks = stats.count .frees := by
    obtain ⟨hlt, hbalance⟩ := hbalanced
    rw [Sanitizer.waiting_scene, hwaiting] at hbalance
    exact (hcounters .recycledChunks (by decide)).trans <|
      ((Nat.mod_eq_of_lt hlt).symm.trans hbalance).trans (hcounters .frees (by decide)).symm
  rw [hheap] at hsmall hblocks hhead hcount htotal hspans
  refine ⟨stats, t, hshut, hsmall, hblocks, hhead, hcount, htotal, hspans, hequal, ?_, ?_, ?_⟩
  · rw [hgauges]
    show u.quarantine.queue.length = 0
    rw [hqueue]
    rfl
  · rw [hgauges]
    show u.quarantine.bytes = 0
    rw [hqueue]
    rfl
  · rw [hgauges]
    show u.heap.large.count = 0
    rw [hheap, hcount]

/-- A thread leaves a small and a large chunk in the quarantine. -/
theorem shutdown_leaks_nothing_mixed :
    ∃ past s stats t, Run False False past s ∧ s.waiting.length = 2 ∧ (s.heap.carved 150).length = 4
      ∧ s.heap.linked = [18691700563968]
      ∧ s.shutdown = .ok stats t ∧ (t.heap.free 150).Perm (t.heap.carved 150)
      ∧ t.heap.large.blocks = [] ∧ t.heap.large.spans = Spans.new t.heap.primaryEnd t.heap.space.endAddr
      ∧ stats.count .recycledChunks = stats.count .frees := by
  obtain ⟨past, s, hrun, hcheck⟩ := of_plays False False
    (show Request.plays {} .counter {}
      [.call .register, .call (.allocate 0 60000 8 .malloc 0), .call (.allocate 0 8000000 8 .malloc 0),
        .call (.free 0 18236431138944 .malloc 0), .call (.free 0 18691700564096 .malloc 0),
        .call (.unregister 0)]
      (fun _ s => s.threads.isEmpty && s.waiting.length == 2 && (s.heap.carved 150).length == 4
        && s.heap.linked == [18691700563968]
        && (List.range s.heap.regions.size).all (fun c => s.heap.live (s.heap.carved c) == [])
        && s.heap.live s.heap.linked == []) = true by
      decide +kernel)
    (by simp [Request.Fits, Operation.Marks])
  simp only [Bool.and_eq_true, beq_iff_eq, List.isEmpty_iff, List.all_eq_true, List.mem_range] at hcheck
  obtain ⟨⟨⟨⟨⟨hthreads, hwaiting⟩, hcarved⟩, hlinked⟩, hsmall⟩, hlarge⟩ := hcheck
  have hnone := Sanitizer.userChunk?_eq_none hrun.fit hrun.sound hsmall hlarge
  obtain ⟨stats, t, hshut, hfree, hblocks, -, -, -, hspans, hequal, -⟩ :=
    shutdown_leaks_nothing hrun hthreads hnone
  exact ⟨past, s, stats, t, hrun, hwaiting, hcarved, hlinked, hshut, hfree 150, hblocks, hspans, hequal⟩

end Run

end GuardedHeap
