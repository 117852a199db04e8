import GuardedHeap.Proofs.Heap.Caches
import GuardedHeap.Proofs.Tight

/-! # Sites — every free block begins a slot of its class

    Where a block may begin is settled by the class: at a slot that the
    region of the class has carved (`SlotAt`).  Slots are never taken back
    and regions do not move, so what was such a place stays one
    (`Extends`).  Hence a heap whose free blocks all begin slots (`Sited`)
    keeps it so, whatever is asked of it, for any table that is accepted.

    Large blocks are behind the regions.  What they do to the pages of
    their mappings does not reach a region (`Sited.withLarge`), and a block
    that is mapped is found at once (`Sited.ends_allocateLarge`). -/

namespace GuardedHeap

/-- The error says that there is no class for a size, or that an alignment is none. -/
def AllocError.Misroutes : AllocError → Prop
  | noSizeClass _ | invalidAlignment _ => True
  | _ => False

namespace Large

/-- The block for `size` bytes in a mapping. -/
def mapped (size alignment mapBegin mapSize : Nat) : LargeBlock where
  user := Word.roundUp (mapBegin + Pages.pageSize) (max alignment Pages.pageSize)
  size
  mapBegin
  mapSize
  prev := 0
  next := 0
  record := {}

/-- A span that is taken for a mapping has room for the block, and the list is in order without the block and
    with it. -/
theorem WF.alloc {l : Large} {spans : Spans} {size alignment mapBegin mapSize : Nat} (hl : l.WF) (hsize : 0 < size)
    (halign : Word.isPowerOfTwo alignment = true) (hmapSize : Heap.mapSizeFor? size alignment = some mapSize)
    (halloc : l.spans.alloc mapSize = some (mapBegin, spans)) :
    ({ l with spans } : Large).WF ∧ (mapped size alignment mapBegin mapSize).Placed l.begin l.past
      ∧ (({ l with spans } : Large).link (mapped size alignment mapBegin mapSize)).WF := by
  obtain ⟨hmapdvd, -, hfits⟩ := Heap.mapSizeFor?_spec halign hmapSize
  obtain ⟨hspans, hpast, hbegin, hlo, hhi, hfree, hfree'⟩ := Spans.alloc_spec hl.spans hmapdvd halloc
  rw [hl.spans_past] at hpast hhi
  obtain ⟨huserdvd, hheader, hend⟩ := hfits mapBegin hbegin
  have htaken : ({ l with spans } : Large).WF :=
    { hl with
      spans := hspans
      spans_past := hpast
      taken := fun m hm a ha hf => hl.taken m hm a ha ((hfree' a).mp hf).1 }
  have hplaced : (mapped size alignment mapBegin mapSize).Placed l.begin l.past :=
    ⟨hbegin, hmapdvd, huserdvd, hsize, hlo, hheader, hend, hhi⟩
  refine ⟨htaken, hplaced, htaken.link hplaced ?_ fun a ha hf => ((hfree' a).mp hf).2 ha⟩
  exact fun m hm => Set.disjoint_left.mpr fun a ha ham => hl.taken m hm a ham (hfree a ha.1 ha.2)

end Large

namespace Heap

open Act

variable {h t u : Heap} {c p : Nat} {r : Region}

/-- The address is where a carved slot of the class begins. -/
def SlotAt (h : Heap) (c p : Nat) : Prop :=
  ∃ slot, h.Carved ⟨c, slot⟩ ∧ p = h.slotBegin ⟨c, slot⟩

/-! ## What stays -/

/-- The same ground, with all slots that there were. -/
structure Extends (h t : Heap) : Prop where
  ground : SameGround h t
  regions : t.regions.size = h.regions.size
  slots : ∀ c p, h.SlotAt c p → t.SlotAt c p

namespace Extends

theorem refl (h : Heap) : Extends h h :=
  ⟨.refl h, rfl, fun _ _ hp => hp⟩

theorem trans (h' : Extends h t) (h'' : Extends t u) : Extends h u :=
  ⟨h'.ground.trans h''.ground, h''.regions.trans h'.regions, fun c p hp => h''.slots c p (h'.slots c p hp)⟩

theorem build (h' : Extends h t) : t.build = h.build := by
  unfold Heap.build
  rw [h'.ground.classes, h'.ground.regionSize, h'.regions]

theorem primaryEnd (h' : Extends h t) : t.primaryEnd = h.primaryEnd := by
  unfold Heap.primaryEnd
  rw [h'.ground.space, h'.ground.regionSize, h'.regions]

end Extends

/-- The region of the class has carved as much as before, or more. -/
def Retains (h t : Heap) (c : Nat) : Prop :=
  ∀ r : Region, h.regions[c]? = some r → ∃ q : Region, t.regions[c]? = some q ∧ r.allocatedUser ≤ q.allocatedUser

theorem retains_of_eq (hsame : t.regions[c]? = h.regions[c]?) : Retains h t c :=
  fun r hr => ⟨r, hsame.trans hr, Nat.le_refl _⟩

/-- Such a region has the slots that it had. -/
theorem SlotAt.retained (hp : h.SlotAt c p) (hground : SameGround h t) (hretains : Retains h t c) :
    t.SlotAt c p := by
  obtain ⟨slot, ⟨r, hr, hle⟩, rfl⟩ := hp
  obtain ⟨q, hq, hmore⟩ := hretains r hr
  refine ⟨slot, ⟨q, hq, ?_⟩, ?_⟩
  · show (slot + 1) * t.classes.size c ≤ q.allocatedUser
    rw [hground.classes]
    exact Nat.le_trans hle hmore
  · unfold slotBegin
    rw [hground.regionBegin, hground.classes]

/-! ## Heaps in order -/

/-- The free blocks of each class begin slots of it.  The table is an accepted one, the regions are as large
    as a heap may have them and begin at a multiple of that, and the large blocks lie right behind them. -/
structure Sited (h : Heap) : Prop where
  tracts : h.Tracts
  classes : h.classes.Accepted
  regionSize : ∃ log, 20 ≤ log ∧ log ≤ 36 ∧ h.regionSize = Word.powerOfTwo log
  begin_dvd : h.regionSize ∣ h.space.begin
  free : ∀ c r, h.regions[c]? = some r → ∀ p ∈ r.freeList, h.SlotAt c p
  large : h.large.WF
  counted : h.large.Counted
  large_begin : h.large.begin = h.primaryEnd
  large_lt : h.large.past < Word.limit

/-- What an action on the heap may come to. -/
def Moves (h t : Heap) : Prop :=
  t.Sited ∧ Extends h t

theorem Moves.trans (h' : Moves h t) (h'' : Moves t u) : Moves h u :=
  ⟨h''.1, h'.2.trans h''.2⟩

namespace Sited

variable (hs : h.Sited)

include hs

theorem moves : Moves h h :=
  ⟨hs, .refl h⟩

/-- Regions may carve more, as long as the free blocks begin slots. -/
theorem of_regions (htilled : Tilled h t) (hlarge : t.large = h.large)
    (hretains : ∀ c, Retains h t c)
    (hfree : ∀ c q, t.regions[c]? = some q → ∀ p ∈ q.freeList, t.SlotAt c p) : Moves h t := by
  obtain ⟨ht, hground⟩ := htilled
  have hextends : Extends h t := by
    refine ⟨hground, ?_, fun c p hp => hp.retained hground (hretains c)⟩
    rw [ht.regions, hs.tracts.regions, hground.classes]
  refine ⟨{ tracts := ht, classes := ?_, regionSize := ?_, begin_dvd := ?_, free := hfree, large := ?_,
            counted := ?_, large_begin := ?_, large_lt := ?_ }, hextends⟩
  · rw [hground.classes]
    exact hs.classes
  · rw [hground.regionSize]
    exact hs.regionSize
  · rw [hground.regionSize, hground.space]
    exact hs.begin_dvd
  · rw [hlarge]
    exact hs.large
  · rw [hlarge]
    exact hs.counted
  · rw [hlarge, hextends.primaryEnd]
    exact hs.large_begin
  · rw [hlarge]
    exact hs.large_lt

/-- A region may be replaced by one that has carved as much, with any slots as its free blocks. -/
theorem setRegion {q : Region} (htilled : Tilled h (h.setRegion c q)) (hr : h.regions[c]? = some r)
    (hmore : r.allocatedUser ≤ q.allocatedUser) (hfree : ∀ p ∈ q.freeList, h.SlotAt c p) :
    Moves h (h.setRegion c q) := by
  have hc := lt_size_of_region hr
  have hretains : ∀ d, Retains h (h.setRegion c q) d := by
    intro d r' hr'
    rw [regions_setRegion hc]
    by_cases hdc : d = c
    · subst hdc
      obtain rfl : r = r' := Option.some.inj (hr.symm.trans hr')
      exact ⟨q, if_pos rfl, hmore⟩
    · rw [if_neg hdc]
      exact ⟨r', hr', Nat.le_refl _⟩
  refine hs.of_regions htilled rfl hretains fun d q' hq' p hp => ?_
  refine SlotAt.retained ?_ htilled.2 (hretains d)
  rw [regions_setRegion hc] at hq'
  by_cases hdc : d = c
  · subst hdc
    rw [if_pos rfl] at hq'
    obtain rfl := Option.some.inj hq'
    exact hfree p hp
  · rw [if_neg hdc] at hq'
    exact hs.free d q' hq' p hp

theorem setFreeList (hr : h.regions[c]? = some r) {l : List Nat} (hl : ∀ p ∈ l, h.SlotAt c p) :
    Moves h (h.setRegion c { r with freeList := l }) :=
  hs.setRegion (hs.tracts.setFreeList hr l) hr (Nat.le_refl _) hl

/-- The record of a carved slot may be any. -/
theorem setSlotRecord {s : Slot} (hcarved : h.Carved s) (record : ChunkRecord) :
    Moves h (h.setSlotRecord s record) := by
  obtain ⟨r, hr, hle⟩ := hcarved
  have hregion := hs.tracts.region _ r hr
  obtain ⟨n, hn, hm, hblank⟩ := hregion.user
  have hslot := (hs.tracts.carved_iff hr hn s.slot).mp ⟨r, hr, hle⟩
  rw [setSlotRecord_eq hr]
  refine hs.setRegion ?_ hr (Nat.le_refl _) (hs.free _ r hr)
  refine hs.tracts.setRegion (lt_size_of_region hr)
    { hregion with user := ⟨n, hn, hm, fun slot hlo hhi => ?_⟩ } (hs.tracts.user _ r hr) (hs.tracts.records _ r hr)
  -- The slot is one of the carved ones, so no slot beyond them gets a record.
  show (r.records.set s.slot record).get slot = {}
  rw [RangeMap.get_set _ _ _ _ hhi, if_neg (by omega)]
  exact hblank slot hlo hhi

/-! ## Stock -/

/-- What a class carves are slots of it. -/
theorem of_carves (htilled : Tilled h t) (hlarge : t.large = h.large) (hr : h.regions[c]? = some r)
    (hcarves : Carves h t c r) : Moves h t := by
  obtain ⟨q, hq, hlist, huser, -⟩ := hcarves.region
  have hretains : ∀ d, Retains h t d := by
    intro d
    by_cases hdc : d = c
    · subst hdc
      intro r' hr'
      obtain rfl : r = r' := Option.some.inj (hr.symm.trans hr')
      refine ⟨q, hq, ?_⟩
      rw [huser]
      exact Nat.le_add_right _ _
    · exact retains_of_eq (hcarves.others d hdc)
  refine hs.of_regions htilled hlarge hretains fun d q' hq' p hp => ?_
  by_cases hdc : d = c
  case neg =>
    rw [hcarves.others d hdc] at hq'
    exact (hs.free d q' hq' p hp).retained htilled.2 (hretains d)
  subst hdc
  obtain rfl : q = q' := Option.some.inj (hq.symm.trans hq')
  rw [hlist] at hp
  rcases List.mem_append.mp hp with hfresh | hold
  · obtain ⟨n, hn, -, -⟩ := (hs.tracts.region d r hr).user
    obtain ⟨i, hi, rfl⟩ := List.mem_map.mp hfresh
    have hslots : q.allocatedUser = (n + carveCount (h.classes.size d)) * t.classes.size d := by
      rw [huser, hn, htilled.2.classes, Nat.add_mul]
    refine ⟨n + i, (htilled.1.carved_iff hq hslots (n + i)).mpr ?_, ?_⟩
    · have := List.mem_range.mp hi
      omega
    · unfold slotBegin
      rw [htilled.2.regionBegin, htilled.2.classes, hn, Nat.add_mul, Nat.add_assoc]
  · exact (hs.free d r hr p hold).retained htilled.2 (hretains d)

theorem ends_populate (hr : h.regions[c]? = some r) :
    Ends (populate c) h (fun _ t => Moves h t ∧ ∃ q, t.regions[c]? = some q ∧ q.freeList ≠ [])
      fun _ t => Moves h t := by
  have hlarge : Leaves (fun t => t.large = h.large) (populate c) h :=
    leaves_populate (P := fun t => t.large = h.large) (fun _ _ _ ht => ht) rfl
      fun reach => fixes_large_commitRegion c reach h
  refine ((hs.tracts.ends_populate hr).and_leaves hlarge).imp ?_ ?_
  · rintro - t ⟨⟨htilled, hcarves⟩, hsame⟩
    refine ⟨hs.of_carves htilled hsame hr hcarves, ?_⟩
    obtain ⟨q, hq, hlist, -⟩ := hcarves.region
    refine ⟨q, hq, ?_⟩
    rw [hlist]
    exact List.append_ne_nil_of_left_ne_nil (freshSlots_ne_nil h c r) _
  · rintro e t ⟨⟨htilled, hregions, -⟩, hsame⟩
    have hretains : ∀ d, Retains h t d := fun d => retains_of_eq (by rw [hregions])
    refine hs.of_regions htilled hsame hretains fun d q hq p hp => ?_
    rw [hregions] at hq
    exact (hs.free d q hq p hp).retained htilled.2 (hretains d)

theorem ends_stockedRegion (hc : c < h.classes.count) :
    Ends (stockedRegion c) h (fun q t => Moves h t ∧ t.regions[c]? = some q ∧ q.freeList ≠ [])
      fun _ t => Moves h t := by
  obtain ⟨r, hr⟩ := hs.tracts.exists_region hc
  unfold stockedRegion
  rw [ends_bind]
  refine ends_region hr ?_
  by_cases hempty : r.freeList.isEmpty = true
  · rw [if_pos hempty, ends_bind]
    refine (hs.ends_populate hr).imp ?_ fun _ _ hno => hno
    rintro - t ⟨hmoves, q, hq, hstocked⟩
    exact ends_region hq ⟨hmoves, hq, hstocked⟩
  · rw [if_neg hempty]
    exact ends_pure.mpr ⟨hs.moves, hr, fun hnil => hempty (List.isEmpty_iff.mpr hnil)⟩

/-- A batch is made of slots of the class. -/
theorem ends_takeBatch (hc : c < h.classes.count) :
    Ends (takeBatch c) h (fun batch t => Moves h t ∧ ∀ p ∈ batch, t.SlotAt c p) fun _ t => Moves h t := by
  unfold takeBatch
  rw [ends_bind]
  refine (hs.ends_stockedRegion hc).imp ?_ fun _ _ hno => hno
  rintro q t ⟨hmoves, hq, -⟩
  simp only [ends_bind, ends_get]
  refine ends_modify.mpr (ends_pure.mpr ?_)
  have hfree := hmoves.1.free c q hq
  have hrest := hmoves.1.setFreeList hq (l := q.freeList.drop (t.classes.maxCached c)) fun p hp =>
    hfree p (List.mem_of_mem_drop hp)
  exact ⟨hmoves.trans hrest, fun p hp => hrest.2.slots c p (hfree p (List.mem_of_mem_take hp))⟩

/-! ## Behind the regions -/

/-- The shadow, the large blocks and the pages behind the regions may become others. -/
theorem withLarge {pages : Pages} (shadow : Shadow) {large : Large}
    (hwritable : ∀ a, a < h.primaryEnd → h.pages.Writable a → pages.Writable a) (hlarge : large.WF)
    (hcounted : large.Counted) (hbegin : large.begin = h.large.begin) (hpast : large.past = h.large.past) :
    Moves h { h with pages, shadow, large } := by
  have htracts : ({ h with pages, shadow, large } : Heap).Tracts :=
    { hs.tracts with
      user := fun c r hr a hlo hhi => by
        have hmapped := (hs.tracts.region c r hr).mappedUser_le
        have hend := region_le_primaryEnd (lt_size_of_region (h := h) hr)
        change a < h.regionBegin c + r.mappedUser at hhi
        exact hwritable a (by omega) (hs.tracts.user c r hr a hlo hhi)
      records := fun c r hr a hlo hhi => by
        have hend := region_le_primaryEnd (lt_size_of_region (h := h) hr)
        change a < h.regionBegin c + h.regionSize at hhi
        exact hwritable a (by omega) (hs.tracts.records c r hr a hlo hhi) }
  refine ⟨{ tracts := htracts, classes := hs.classes, regionSize := hs.regionSize, begin_dvd := hs.begin_dvd,
            free := hs.free, large := hlarge, counted := hcounted, large_begin := ?_, large_lt := ?_ },
          ⟨rfl, rfl, rfl⟩, rfl, fun _ _ hp => hp⟩
  · show large.begin = h.primaryEnd
    rw [hbegin]
    exact hs.large_begin
  · show large.past < Word.limit
    rw [hpast]
    exact hs.large_lt

/-- The record of any block may become another. -/
theorem setRecord (block : Nat) (record : ChunkRecord) : Moves h (h.setRecord block record) := by
  unfold Heap.setRecord
  split
  · cases hlocate : h.locate? block with
    | none => exact hs.moves
    | some s => exact hs.setSlotRecord (hs.tracts.of_locate? hlocate).1 record
  · exact hs.withLarge h.shadow (fun _ _ hw => hw) (wf_setRecord hs.large block record)
      (hs.counted.setRecord block record) rfl rfl

/-- A large block is mapped behind the regions, at its alignment and at whole pages, and is found there with
    the size that it has. -/
theorem ends_allocateLarge {size alignment : Nat} (hsize : 0 < size)
    (halign : Word.isPowerOfTwo alignment = true) :
    Ends (allocateLarge size alignment) h
      (fun user t => Moves h t ∧ h.primaryEnd ≤ user ∧ max alignment Pages.pageSize ∣ user
        ∧ t.large.actualSize? user = some (Word.roundUp size Pages.pageSize))
      fun e t => Moves h t ∧ ¬ e.Misroutes := by
  unfold allocateLarge
  rw [ends_bind, ends_orRefuse]
  refine ⟨fun mapSize hmapSize => ?_, fun _ => ⟨hs.moves, id⟩⟩
  unfold takeSpan
  simp only [ends_bind, ends_get, ends_orRefuse]
  refine ⟨fun found halloc => ?_, fun _ => ⟨hs.moves, id⟩⟩
  obtain ⟨mapBegin, spans⟩ := found
  -- While the span is taken nothing lies in it yet.
  obtain ⟨htaken, hplaced, hlinked⟩ := hs.large.alloc hsize halign hmapSize halloc
  have hcounted : ({ h.large with spans } : Large).Counted := ⟨hs.counted.count, hs.counted.totalMapped⟩
  have hlimit := hs.large_lt
  have hlarge_begin := hs.large_begin
  refine ends_modify.mpr ?_
  rw [ends_pure, ends_attempt, ends_onPages]
  refine (Pages.ends_commit hplaced.mapBegin_dvd).imp ?_ ?_
  · rintro - pages ⟨hwritable, -, -⟩
    have hkept : ∀ a, a < h.primaryEnd → h.pages.Writable a → pages.Writable a := fun a ha hw =>
      hwritable a (Nat.lt_trans ha hs.tracts.end_lt) (.inl hw)
    have hbounds := hplaced.lo_le
    have hheader := hplaced.header_le
    have hend := hplaced.past_le
    have hhi := hplaced.le_hi
    have hround := Word.le_roundUp (n := size) (m := Pages.pageSize)
    simp only [Large.mapped, LargeBlock.past] at hbounds hheader hend hhi
    have hpos : 0 < max alignment Pages.pageSize := Nat.lt_of_lt_of_le (by decide) (Nat.le_max_right _ _)
    simp only [ends_bind]
    refine ends_poison.imp ?_ ?_
    · rintro - _ ⟨shadow, rfl⟩
      refine ends_check.mpr ⟨_, Word.nextMultiple_eq_ok.mpr ⟨hpos, by omega, rfl⟩, ?_⟩
      have hmultiple : max alignment Pages.pageSize
          ∣ Word.roundUp (mapBegin + Pages.pageSize) (max alignment Pages.pageSize) := Word.dvd_roundUp hpos
      change (({ h.large with spans } : Large).link
        ⟨Word.roundUp (mapBegin + Pages.pageSize) (max alignment Pages.pageSize), size, mapBegin, mapSize, 0, 0, {}⟩).WF
        at hlinked
      generalize Word.roundUp (mapBegin + Pages.pageSize) (max alignment Pages.pageSize) = user at *
      refine ends_modify.mpr (ends_pure.mpr
        ⟨hs.withLarge shadow hkept hlinked (hcounted.link _) rfl rfl, by omega, hmultiple, ?_⟩)
      -- The new block is the first one in the list.
      have hrange : h.large.begin ≤ user ∧ user < h.large.past := by omega
      have hcontains : mapBegin ≤ user ∧ user < user + Word.roundUp size Pages.pageSize := by omega
      simp only [Large.actualSize?, Large.find?, Large.link, LargeBlock.contains, LargeBlock.past, hrange,
        hcontains, and_self, if_true, List.find?_cons, decide_true, Bool.and_self]
    · rintro e _ ⟨rfl, f, rfl⟩
      exact ⟨hs.withLarge _ hkept htaken hcounted rfl rfl, id⟩
  · rintro e pages ⟨hwritable, -, -⟩
    -- The span goes back where it was taken.
    have hback := Spans.release_alloc hs.large.spans halloc
    rw [ends_bind]
    refine ends_modify.mpr (ends_refuse.mpr ?_)
    refine ⟨?_, id⟩
    show Moves h ({ h with large := { h.large with spans := spans.release ⟨mapBegin, mapSize⟩ }, pages } : Heap)
    rw [hback]
    exact hs.withLarge h.shadow (fun a _ hw => hwritable a hw) hs.large hs.counted rfl rfl

/-- Whatever address is to be unmapped, the regions are as before, however it ends. -/
theorem leaves_freeLarge (p : Nat) : Leaves (Moves h) (freeLarge p) h := by
  unfold freeLarge
  refine leaves_get_bind ?_
  cases hat : h.large.blockAt? p with
  | none => exact hs.moves
  | some b =>
      obtain ⟨hb, -⟩ := Large.WF.of_blockAt? hat
      have hplaced : b.Placed h.large.begin h.large.past := { hs.large.placed _ hb with }
      have hunlinked := hs.large.unlink b
      have hcounted := hs.counted.unlink hs.large hb
      have hlo : h.primaryEnd ≤ b.mapBegin := hs.large_begin ▸ hplaced.lo_le
      have hkept : ∀ {pages : Pages}, Pages.SameOutside b.mapBegin b.mapSize h.pages pages →
          ∀ a, a < h.primaryEnd → h.pages.Writable a → pages.Writable a := fun hsame a ha hw =>
        hsame.writable a (Nat.lt_trans ha hs.tracts.end_lt) (by omega) hw
      have hrelease : Ends (onPages (Pages.release b.mapBegin b.mapSize)) { h with large := h.large.unlink b }
          (fun _ t => ∃ pages, Pages.SameOutside b.mapBegin b.mapSize h.pages pages
            ∧ t = { h with pages, large := h.large.unlink b })
          fun _ t => Moves h t := by
        rw [ends_onPages]
        refine (Pages.ends_release hplaced.mapBegin_dvd hplaced.mapSize_dvd).imp ?_ ?_
        · intro _ pages hsame
          exact ⟨pages, hsame, rfl⟩
        · rintro _ pages ⟨hsame, -⟩
          exact hs.withLarge h.shadow (hkept hsame) hunlinked hcounted rfl rfl
      refine hrelease.leaves_bind ?_ fun _ _ hno => hno
      rintro _ _ ⟨pages, hsame, rfl⟩
      -- The span of the block is free again, and nothing else lies in it.
      obtain ⟨hspans, hpast, hfree⟩ := Spans.release_spec hs.large.spans (Large.span_solid hplaced)
        hplaced.lo_le (by rw [hs.large.spans_past]; exact hplaced.le_hi) (hs.large.taken b.body hb)
      refine hs.withLarge h.shadow (hkept hsame) ?_ ⟨hcounted.count, hcounted.totalMapped⟩ rfl rfl
      refine { hunlinked with
        spans := hspans
        spans_past := hpast.trans hs.large.spans_past
        taken := fun m hm a ha hf => ?_ }
      obtain ⟨hm, hne⟩ := (hs.large.mem_unlink hb).mp hm
      rcases (hfree a).mp hf with hf | hin
      · exact hs.large.taken m hm a ha hf
      · exact hne (hs.large.eq_of_mem hm hb ha hin)

/-! ## A heap that is made -/

omit hs in
/-- A heap that is made for an accepted table is in order. -/
theorem of_create {classes : SizeClasses} {log secondaryLog : Nat} {p q : Pages} (hclasses : classes.Accepted)
    (hge : 20 ≤ log) (hle : log ≤ 36) (hact : create classes log secondaryLog p = .ok h q) : h.Sited := by
  obtain ⟨hnew, -, size, hlarge, hlt⟩ := unused_of_create hclasses hge hle hact
  have htracts := hnew.tracts
  have hfresh : ∀ (c : Nat) (r : Region), h.regions[c]? = some r → r.freeList = [] := by
    intro c r hr
    rw [hnew.regions, Array.getElem?_replicate] at hr
    split at hr
    · rw [← Option.some.inj hr]
    · exact nomatch hr
  refine { tracts := htracts, classes := hnew.classes, regionSize := ⟨log, hge, hle, hnew.regionSize⟩
           begin_dvd := hnew.begin_dvd, free := fun c r hr p hp => ?_, large := ?_, counted := ?_
           large_begin := ?_, large_lt := ?_ }
  · rw [hfresh c r hr] at hp
    exact nomatch hp
  all_goals rw [hlarge]
  · have hpage : Pages.pageSize ∣ h.primaryEnd :=
      Nat.dvd_add htracts.begin_dvd (Nat.dvd_mul_left_of_dvd htracts.region_dvd _)
    exact ⟨Spans.wf_new hpage (Nat.le_add_right _ _), rfl, nofun, .nil, nofun⟩
  · exact Large.Counted.new _ _
  · rfl
  · exact hlt

end Sited

end Heap

end GuardedHeap
