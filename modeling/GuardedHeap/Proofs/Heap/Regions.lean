import GuardedHeap.Proofs.Heap.Tracts
import GuardedHeap.Proofs.Kernel
import GuardedHeap.Proofs.SizeClass.Splines

/-! # Regions — where slots and records lie, whatever is called

    A run takes blocks and gives blocks back, one by one or in batches, in
    any order and with any addresses, while calls of the operating system
    may fail.  No call moves the ground, and each leaves the regions in
    order (`SmallCall.leaves`); so they are after every run
    (`SmallRun.tilled`), and all that is said of places follows from that
    (`SmallRun.geometry`). -/

namespace GuardedHeap.Heap

variable {h t : Heap} {c log : Nat} {r : Region} {s s' : Slot} {α : Type}

/-! ## Runs -/

/-- A call on small blocks, or failures of the operating system that get set up. -/
inductive SmallCall where
  | allocate (size alignment : Nat)
  | deallocate (p : Nat)
  | bulkAllocate (classId : Nat)
  | bulkDeallocate (classId : Nat) (blocks : List Nat)
  | schedule (failures : List ArmedFailure)

/-- Make the call and drop what it returns. -/
def SmallCall.perform : SmallCall → Act AllocError Heap Unit
  | allocate size alignment => (fun _ => ()) <$> allocateSmall size alignment
  | deallocate p => freeSmall p
  | bulkAllocate classId => (fun _ => ()) <$> takeBatch classId
  | bulkDeallocate classId blocks => returnBatch classId blocks
  | schedule failures => modify fun h => { h with pages := h.pages.schedule failures }

/-- A heap of which nothing has been used, on any pages: the table is an accepted one, the regions have
    `2 ^ log` bytes, begin at a multiple of that, and end in the address space. -/
structure Unused (log : Nat) (h : Heap) : Prop where
  classes : h.classes.Accepted
  log_ge : 20 ≤ log
  log_le : log ≤ 36
  regionSize : h.regionSize = Word.powerOfTwo log
  begin_dvd : h.regionSize ∣ h.space.begin
  end_lt : h.primaryEnd < Word.limit
  regions : h.regions = Array.replicate h.classes.count {}

/-- What calls lead to, however each of them ends. -/
inductive SmallRun (log : Nat) : Heap → Prop where
  | unused {h : Heap} (hnew : Unused log h) : SmallRun log h
  | call {h : Heap} (hrun : SmallRun log h) (call : SmallCall) : SmallRun log (call.perform.after h)

/-! ## One call -/

/-- A region is read where there is one; otherwise the heap stays as it is. -/
theorem leaves_region_bind {P : Heap → Prop} {next : Region → Act AllocError Heap α} (hstay : P h)
    (hnext : ∀ r, h.regions[c]? = some r → Act.Leaves P (next r) h) :
    Act.Leaves P (Heap.region c >>= next) h := by
  cases hr : h.regions[c]? with
  | some r =>
      unfold Act.Leaves Act.after
      rw [Act.bind_of_ok (region_eq hr)]
      exact hnext r hr
  | none =>
      have hstop : Heap.region c h = .error .stopped h := by
        show (Act.orStop h.regions[c]? : Act AllocError Heap Region) h = _
        rw [hr]
        rfl
      unfold Act.Leaves
      rw [Act.after_of_error (Act.bind_of_error hstop)]
      exact hstay

namespace Tracts

variable (ht : h.Tracts)

include ht

/-- What comes behind stocking a region tills what stocking has tilled. -/
theorem leaves_stocked_bind {next : Region → Act AllocError Heap α}
    (hnext : ∀ q t, Tilled h t → t.regions[c]? = some q → Act.Leaves (Tilled h) (next q) t) :
    Act.Leaves (Tilled h) (stockedRegion c >>= next) h := by
  cases hr : h.regions[c]? with
  | some r =>
      exact (ht.ends_stockedRegion hr).leaves_bind (fun q t hok => hnext q t hok.1 hok.2.1)
        fun _ t hno => hno
  | none =>
      unfold stockedRegion
      rw [bind_assoc]
      exact leaves_region_bind ht.tilled fun r hr' => by
        rw [hr] at hr'
        exact nomatch hr'

/-- An allocation of a slot tills the regions. -/
theorem leaves_allocateSmall (size alignment : Nat) :
    Act.Leaves (Tilled h) (allocateSmall size alignment) h := by
  unfold allocateSmall
  refine Act.leaves_get_bind ?_
  by_cases hfits : (!h.canAllocateSmall size alignment) = true
  · rw [if_pos hfits]
    exact ht.tilled
  rw [if_neg hfits]
  cases hclass : h.classes.classOf? size with
  | none => exact ht.tilled
  | some c =>
      show Act.Leaves (Tilled h) (stockedRegion c >>= _) h
      refine ht.leaves_stocked_bind fun q t htilled hq => ?_
      cases hlist : q.freeList with
      | nil => exact htilled
      | cons p rest => exact htilled.trans (htilled.1.setFreeList hq rest)

theorem leaves_takeBatch (c : Nat) : Act.Leaves (Tilled h) (takeBatch c) h := by
  unfold takeBatch
  refine ht.leaves_stocked_bind fun q t htilled hq => ?_
  exact htilled.trans (htilled.1.setFreeList hq _)

theorem leaves_returnBatch (c : Nat) (blocks : List Nat) :
    Act.Leaves (Tilled h) (returnBatch c blocks) h := by
  unfold returnBatch
  exact leaves_region_bind ht.tilled fun r hr => ht.setFreeList hr _

theorem leaves_freeSmall (p : Nat) : Act.Leaves (Tilled h) (freeSmall p) h := by
  unfold freeSmall classOfPlace
  rw [bind_assoc]
  refine Act.leaves_get_bind ?_
  cases hsub : Word.sub p h.space.begin with
  | error o => exact ht.tilled
  | ok offset =>
      show Act.Leaves (Tilled h) (Heap.region (h.classOf p) >>= _) h
      exact leaves_region_bind ht.tilled fun r hr => ht.setFreeList hr _

end Tracts

/-- No call moves the ground, and each leaves the regions in order, however it ends. -/
theorem SmallCall.leaves (ht : h.Tracts) (call : SmallCall) :
    Act.Leaves (Tilled h) call.perform h := by
  cases call with
  | allocate size alignment => exact (ht.leaves_allocateSmall size alignment).map
  | deallocate p => exact ht.leaves_freeSmall p
  | bulkAllocate c => exact (ht.leaves_takeBatch c).map
  | bulkDeallocate c blocks => exact ht.leaves_returnBatch c blocks
  | schedule failures => exact ⟨ht.withPages h.shadow fun _ _ hw => hw, rfl, rfl, rfl⟩

/-! ## Whole runs -/

/-- Regions that were never used are in order. -/
theorem Unused.tracts (hnew : Unused log h) : h.Tracts := by
  have hlawful := hnew.classes.lawful
  have hregions : h.regions.size = h.classes.count := by
    rw [hnew.regions, Array.size_replicate]
  have hfresh : ∀ (c : Nat) (r : Region), h.regions[c]? = some r → r = {} := by
    intro c r hr
    rw [hnew.regions, Array.getElem?_replicate] at hr
    split at hr
    · exact (Option.some.inj hr).symm
    · exact nomatch hr
  have hpage : Pages.pageSize ∣ h.regionSize := by
    rw [hnew.regionSize]
    exact Nat.pow_dvd_pow 2 (Nat.le_trans (show 12 ≤ 20 by decide) hnew.log_ge)
  refine ⟨hregions, fun c hc => hlawful.size_pos (hregions ▸ hc), hpage, Nat.dvd_trans hpage hnew.begin_dvd,
    hnew.end_lt, fun c r hr => ?_, fun c r hr a hlo hhi => ?_, fun c r hr a hlo hhi => ?_⟩
  · rw [hfresh c r hr]
    exact Region.wf_new _ _
  · rw [hfresh c r hr] at hhi
    exact absurd hlo (Nat.not_le_of_lt hhi)
  · rw [hfresh c r hr] at hlo
    exact absurd hhi (Nat.not_lt_of_le hlo)

/-- A run of calls tills a heap that was never used. -/
theorem SmallRun.tilled (hrun : SmallRun log h) : ∃ h₀, Unused log h₀ ∧ Tilled h₀ h := by
  induction hrun with
  | unused hnew => exact ⟨_, hnew, hnew.tracts.tilled⟩
  | call _ call ih =>
      obtain ⟨h₀, hnew, htilled⟩ := ih
      exact ⟨h₀, hnew, htilled.trans (call.leaves htilled.1)⟩

/-- A heap that is made is unused, and large blocks may lie behind its regions. -/
theorem unused_of_create {classes : SizeClasses} {secondaryLog : Nat} {p q : Pages}
    (hclasses : classes.Accepted) (hge : 20 ≤ log) (hle : log ≤ 36)
    (h' : create classes log secondaryLog p = .ok h q) :
    Unused log h ∧ h.classes = classes
      ∧ ∃ size, h.large = Large.new h.primaryEnd size ∧ h.primaryEnd + size < Word.limit := by
  have hprimary : classes.count * Word.powerOfTwo log < Word.limit :=
    Nat.lt_of_le_of_lt (Nat.mul_le_mul hclasses.lawful.count_le (Word.powerOfTwo_le hle)) (by decide)
  rw [← Kernel.createHeap_machine] at h'
  obtain ⟨space, shadow, u, hspace, -, rfl⟩ := Kernel.of_createHeap hprimary h'
  obtain ⟨hdvd, hsize, hend⟩ := (Kernel.lawful_machine.ends_reserve _ _).of_ok hspace
  have hround := Word.le_roundUp (m := Pages.pageSize)
    (n := classes.count * Word.powerOfTwo log + Word.powerOfTwo secondaryLog)
  have hend_lt : space.begin + classes.count * Word.powerOfTwo log + Word.powerOfTwo secondaryLog
      < Word.limit := by
    unfold Mapping.endAddr at hend
    omega
  have hpage : Pages.pageSize ≤ Word.powerOfTwo log := Word.powerOfTwo_le (j := 12) (by omega)
  refine ⟨⟨hclasses, hge, hle, rfl, ?_, ?_, rfl⟩, rfl, Word.powerOfTwo secondaryLog, ?_, ?_⟩
  · -- The region is the larger one of the two alignments.
    rw [Nat.max_eq_left hpage] at hdvd
    exact hdvd
  all_goals rw [Kernel.primaryEnd_heapIn]
  · exact Nat.lt_of_le_of_lt (Nat.le_add_right _ _) hend_lt
  · rfl
  · exact hend_lt

/-! ## Places -/

/-- The addresses of the record of a slot. -/
def recordExtent (h : Heap) (s : Slot) : Set Nat :=
  Set.Ico (h.slotRecordAddr s) (h.slotRecordAddr s + recordSize)

namespace Tracts

variable (ht : h.Tracts)

include ht

/-- The slots of a class are numbered up to what its region has carved. -/
theorem carved_iff (hr : h.regions[c]? = some r) {n : Nat} (hn : r.allocatedUser = n * h.classes.size c)
    (slot : Nat) : h.Carved ⟨c, slot⟩ ↔ slot < n := by
  have hpos := ht.size_pos c (lt_size_of_region hr)
  unfold Carved
  simp only [hr, Option.some.injEq, exists_eq_left', hn]
  exact (Nat.mul_le_mul_right_iff hpos).trans Nat.succ_le_iff

/-- Slots and their records do not overlap in a region. -/
theorem used_le (hr : h.regions[c]? = some r) : r.allocatedUser + r.allocatedMeta ≤ h.regionSize := by
  have hroom := (ht.region c r hr).room
  have huser := Word.le_roundUp (n := r.allocatedUser) (m := Pages.pageSize)
  have hrecords := Word.le_roundUp (n := r.allocatedMeta) (m := Pages.pageSize)
  omega

/-- A slot and its record lie in what its region has carved at either end. -/
theorem bounds_of_carved (hcarved : h.Carved s) : ∃ r, h.regions[s.classId]? = some r
    ∧ (∀ a ∈ (h.slotBlock s).extent, h.regionBegin s.classId ≤ a
      ∧ a < h.regionBegin s.classId + r.allocatedUser)
    ∧ (∀ a ∈ h.recordExtent s, h.regionBegin s.classId + h.regionSize - r.allocatedMeta ≤ a
      ∧ a < h.regionBegin s.classId + h.regionSize)
    ∧ (s.slot + 1) * recordSize ≤ r.allocatedMeta := by
  obtain ⟨r, hr, hle⟩ := hcarved
  obtain ⟨n, hn, hm, -⟩ := (ht.region _ r hr).user
  have hslot := (ht.carved_iff hr hn s.slot).mp ⟨r, hr, hle⟩
  have hrecord : (s.slot + 1) * recordSize ≤ r.allocatedMeta :=
    hm ▸ Nat.mul_le_mul_right recordSize (Nat.succ_le_of_lt hslot)
  have hused := ht.used_le hr
  obtain ⟨hlo, hhi⟩ := slot_bounds (h := h) hle
  refine ⟨r, hr, fun a ha => ?_, fun a ha => ?_, hrecord⟩
  · have ha' : h.slotBegin s ≤ a ∧ a < h.slotBegin s + h.classes.size s.classId := ha
    omega
  · obtain ⟨halo, hahi⟩ := ha
    unfold slotRecordAddr at halo hahi
    rw [Nat.succ_mul] at halo hahi hrecord
    omega

/-- What a slot and its record take lies in their region, and can be written. -/
theorem place_of_carved (hcarved : h.Carved s) {a : Nat}
    (ha : a ∈ (h.slotBlock s).extent ∪ h.recordExtent s) :
    h.regionBegin s.classId ≤ a ∧ a < h.regionBegin s.classId + h.regionSize ∧ h.pages.Writable a := by
  obtain ⟨r, hr, hslot, hrecord, -⟩ := ht.bounds_of_carved hcarved
  have hregion := ht.region _ r hr
  have hused := ht.used_le hr
  have huser := hregion.user_le
  have hmeta := hregion.meta_le
  rcases ha with ha | ha
  · obtain ⟨hlo, hhi⟩ := hslot a ha
    exact ⟨hlo, by omega, ht.user _ r hr a hlo (by omega)⟩
  · obtain ⟨hlo, hhi⟩ := hrecord a ha
    exact ⟨by omega, hhi, ht.records _ r hr a (by omega) hhi⟩

/-- Two places of one address are in one region. -/
theorem classId_eq (hs : h.Carved s) (hs' : h.Carved s') {a : Nat}
    (ha : a ∈ (h.slotBlock s).extent ∪ h.recordExtent s)
    (ha' : a ∈ (h.slotBlock s').extent ∪ h.recordExtent s') : s.classId = s'.classId := by
  obtain ⟨hlo, hhi, -⟩ := ht.place_of_carved hs ha
  obtain ⟨hlo', hhi', -⟩ := ht.place_of_carved hs' ha'
  exact (classOf_eq hlo hhi).symm.trans (classOf_eq hlo' hhi')

/-- Different slots have no address in common. -/
theorem slots_disjoint (hs : h.Carved s) (hs' : h.Carved s') (hne : s ≠ s') :
    Disjoint (h.slotBlock s).extent (h.slotBlock s').extent := by
  refine Set.disjoint_left.mpr fun a ha ha' => hne ?_
  have hfind := (ht.locate?_eq hs ha).2.2
  rw [(ht.locate?_eq hs' ha').2.2] at hfind
  exact (Option.some.inj hfind).symm

/-- Neither have the records of different slots. -/
theorem records_disjoint (hs : h.Carved s) (hs' : h.Carved s') (hne : s ≠ s') :
    Disjoint (h.recordExtent s) (h.recordExtent s') := by
  refine Set.disjoint_left.mpr fun a ha ha' => hne ?_
  obtain ⟨c, k⟩ := s
  obtain ⟨c', k'⟩ := s'
  obtain rfl : c = c' := ht.classId_eq hs hs' (.inr ha) (.inr ha')
  -- The records of a region lie one below the other, and each ends in the region.
  obtain ⟨r, hr, -, -, hk⟩ := ht.bounds_of_carved hs
  obtain ⟨q, hq, -, -, hk'⟩ := ht.bounds_of_carved hs'
  obtain rfl : r = q := Option.some.inj (hr.symm.trans hq)
  have hused := ht.used_le hr
  obtain ⟨hlo, hhi⟩ := ha
  obtain ⟨hlo', hhi'⟩ := ha'
  simp only [slotRecordAddr, recordSize] at hlo hhi hlo' hhi' hk hk'
  congr 1
  omega

/-- No slot has an address of a record, its own or another's. -/
theorem slot_record_disjoint (hs : h.Carved s) (hs' : h.Carved s') :
    Disjoint (h.slotBlock s).extent (h.recordExtent s') := by
  refine Set.disjoint_left.mpr fun a ha ha' => ?_
  have hclass := ht.classId_eq hs hs' (.inl ha) (.inr ha')
  obtain ⟨r, hr, hslot, -, -⟩ := ht.bounds_of_carved hs
  obtain ⟨q, hq, -, hrecord, -⟩ := ht.bounds_of_carved hs'
  rw [← hclass] at hq hrecord
  obtain rfl : r = q := Option.some.inj (hr.symm.trans hq)
  have hused := ht.used_le hr
  have hin := hslot a ha
  have hin' := hrecord a ha'
  omega

/-- An address is looked up as one of the slot that has it. -/
theorem locate?_eq_some_iff (p : Nat) :
    h.locate? p = some s ↔ h.Carved s ∧ p ∈ (h.slotBlock s).extent :=
  ⟨fun hfind => ⟨(ht.of_locate? hfind).1, (ht.of_locate? hfind).2.1⟩,
    fun hin => (ht.locate?_eq hin.1 hin.2).2.2⟩

end Tracts

/-! ## Geometry -/

/-- How far the next slots of a class reach is a word, with room for rounding up. -/
theorem nextReach_lt (ht : h.Tracts) (hlawful : h.classes.Lawful)
    (hsize : h.regionSize ≤ Word.powerOfTwo 36) (hr : h.regions[c]? = some r) :
    Word.roundUp (Region.nextReach r (h.classes.size c)).user Pages.pageSize
      + Word.roundUp (Region.nextReach r (h.classes.size c)).records Pages.pageSize < Word.limit := by
  have hused := ht.used_le hr
  have hle := hlawful.size_le_signLimit (ht.regions ▸ lt_size_of_region hr)
  generalize h.classes.size c = size at hle ⊢
  -- Either one slot is carved, or all of them fit the bytes that are carved at once.
  have hcarve : carveCount size * size ≤ max carveBytes size
      ∧ carveCount size * recordSize ≤ max carveBytes recordSize := by
    have hmul := Nat.div_mul_le_self carveBytes (size + recordSize)
    unfold carveCount
    rcases Nat.le_total (carveBytes / (size + recordSize)) 1 with hone | hmany
    · rw [Nat.max_eq_right hone, Nat.one_mul, Nat.one_mul]
      exact ⟨Nat.le_max_right _ _, Nat.le_max_right _ _⟩
    · rw [Nat.max_eq_left hmany]
      rw [Nat.mul_add] at hmul
      exact ⟨Nat.le_trans (by omega) (Nat.le_max_left _ _), Nat.le_trans (by omega) (Nat.le_max_left _ _)⟩
  have huser := Word.roundUp_lt (n := (Region.nextReach r size).user) (m := Pages.pageSize) (by decide)
  have hrecords := Word.roundUp_lt (n := (Region.nextReach r size).records) (m := Pages.pageSize) (by decide)
  have hreach : (Region.nextReach r size).user = r.allocatedUser + carveCount size * size
      ∧ (Region.nextReach r size).records = r.allocatedMeta + carveCount size * recordSize := ⟨rfl, rfl⟩
  rw [show Word.powerOfTwo 36 = 68719476736 by decide] at hsize
  simp only [carveBytes, recordSize, Word.signLimit, Word.limit, Pages.pageSize] at *
  omega

/-- After any run every region has carved as many slots as records, in committed bytes that the region has
    room for.  So slots and records lie in their regions and in committed bytes, and do not overlap; an
    address is located in a slot exactly if it lies in a carved one.  A region without free blocks is
    populated in two passes at most, without an overrun: it carves its next slots behind the old ones, or
    is refused and has no other slots than before. -/
theorem SmallRun.geometry (hrun : SmallRun log h) :
    (∀ c < h.classes.count, ∃ r n, h.regions[c]? = some r
      ∧ r.allocatedUser = n * h.classes.size c ∧ r.allocatedMeta = n * recordSize
      ∧ (∀ slot, h.Carved ⟨c, slot⟩ ↔ slot < n)
      ∧ r.allocatedUser ≤ r.mappedUser ∧ r.allocatedMeta ≤ r.mappedMeta
      ∧ r.allocatedUser + r.allocatedMeta ≤ h.regionSize
      ∧ (∀ a, h.regionBegin c ≤ a → a < h.regionBegin c + r.mappedUser → h.pages.Writable a)
      ∧ ∀ a, h.regionBegin c + h.regionSize - r.mappedMeta ≤ a → a < h.regionBegin c + h.regionSize →
        h.pages.Writable a)
    ∧ (∀ s, h.Carved s → ∀ a ∈ (h.slotBlock s).extent ∪ h.recordExtent s,
      h.regionBegin s.classId ≤ a ∧ a < h.regionBegin s.classId + h.regionSize ∧ h.pages.Writable a)
    ∧ (∀ s s', h.Carved s → h.Carved s' →
      (s ≠ s' → Disjoint (h.slotBlock s).extent (h.slotBlock s').extent
        ∧ Disjoint (h.recordExtent s) (h.recordExtent s'))
      ∧ Disjoint (h.slotBlock s).extent (h.recordExtent s'))
    ∧ (∀ p s, h.locate? p = some s ↔ h.Carved s ∧ p ∈ (h.slotBlock s).extent)
    ∧ (∀ p, h.locate? p = none ↔ ∀ s, h.Carved s → p ∉ (h.slotBlock s).extent)
    ∧ ∀ c r, h.regions[c]? = some r → r.freeList = [] →
      (∀ turns, populateTurns c (turns + 2) h = (populate c >>= fun _ => pure true) h)
      ∧ Word.roundUp (Region.nextReach r (h.classes.size c)).user Pages.pageSize
        + Word.roundUp (Region.nextReach r (h.classes.size c)).records Pages.pageSize < Word.limit
      ∧ Act.Ends (populate c) h
        (fun _ t => Carves h t c r
          ∧ ∀ n, r.allocatedUser = n * h.classes.size c →
            ∀ slot, t.Carved ⟨c, slot⟩ ↔ slot < n + carveCount (h.classes.size c))
        fun e t => t.regions = h.regions ∧ (e = .regionExhausted c h.regionSize ∨ Hinders e) := by
  obtain ⟨h₀, hnew, ht, hsame⟩ := hrun.tilled
  have hlawful : h.classes.Lawful := hsame.classes ▸ hnew.classes.lawful
  have hsize : h.regionSize ≤ Word.powerOfTwo 36 := by
    rw [hsame.regionSize, hnew.regionSize]
    exact Nat.pow_le_pow_right (by decide) hnew.log_le
  refine ⟨fun c hc => ?_, fun s hs a ha => ht.place_of_carved hs ha,
    fun s s' hs hs' => ⟨fun hne => ⟨ht.slots_disjoint hs hs' hne, ht.records_disjoint hs hs' hne⟩,
      ht.slot_record_disjoint hs hs'⟩,
    fun p s => ht.locate?_eq_some_iff p, fun p => ?_, fun c r hr hempty =>
      ⟨fun turns => ht.populateTurns_eq hr hempty turns, nextReach_lt ht hlawful hsize hr, ?_⟩⟩
  · obtain ⟨r, hr⟩ := ht.exists_region hc
    have hregion := ht.region c r hr
    obtain ⟨n, hn, hm, -⟩ := hregion.user
    exact ⟨r, n, hr, hn, hm, ht.carved_iff hr hn, hregion.user_le, hregion.meta_le, ht.used_le hr,
      ht.user c r hr, ht.records c r hr⟩
  · rw [Option.eq_none_iff_forall_ne_some]
    exact forall_congr' fun s => (not_congr (ht.locate?_eq_some_iff p)).trans not_and
  -- The region is populated in one round, which carves as many slots as it says.
  · refine (ht.ends_populate hr).imp ?_ fun e t hno => hno.2
    rintro - t ⟨htilled, hcarves⟩
    refine ⟨hcarves, fun n hn => ?_⟩
    obtain ⟨q, hq, -, huser, -⟩ := hcarves.region
    refine htilled.1.carved_iff hq ?_
    rw [huser, hn, htilled.2.classes, Nat.add_mul]

/-- The heap after calls on one that was made on fresh pages. -/
def worked (classes : SizeClasses) (log secondaryLog : Nat) (calls : List SmallCall) : Option Heap :=
  (Act.returned? (create classes log secondaryLog) {}).map fun made =>
    calls.foldl (fun h call => call.perform.after h) made.1

/-- Calls that are made one after the other make a run. -/
theorem SmallRun.calls (hrun : SmallRun log h) (calls : List SmallCall) :
    SmallRun log (calls.foldl (fun h call => call.perform.after h) h) := by
  induction calls generalizing h with
  | nil => exact hrun
  | cons call rest ih => exact ih (hrun.call call)

/-- A heap that passes a check can be found by running. -/
theorem SmallRun.of_worked {classes : SizeClasses} {secondaryLog : Nat} {calls : List SmallCall}
    {check : Heap → Bool} (hclasses : classes.Accepted) (hge : 20 ≤ log) (hle : log ≤ 36)
    (hcheck : (worked classes log secondaryLog calls).any check = true) :
    ∃ h, SmallRun log h ∧ check h = true := by
  obtain ⟨h, hh, hcheck⟩ := (Option.any_eq_true _ _).mp hcheck
  obtain ⟨⟨fresh, q⟩, hcreate, rfl⟩ := Option.map_eq_some_iff.mp hh
  have hnew := (unused_of_create hclasses hge hle (Act.of_returned? hcreate)).1
  exact ⟨_, (SmallRun.unused hnew).calls calls, hcheck⟩

/-- The largest class of a small heap carves seven slots; the smallest one is denied its pages, and has
    carved nothing and is located nowhere. -/
theorem SmallRun.geometry_denied :
    ∃ h, SmallRun 20 h ∧ h.Carved ⟨31, 6⟩ ∧ ¬ h.Carved ⟨31, 7⟩ ∧ (∀ slot, ¬ h.Carved ⟨0, slot⟩)
      ∧ h.locate? (h.slotBegin ⟨31, 6⟩ + 100) = some ⟨31, 6⟩
      ∧ Disjoint (h.slotBlock ⟨31, 6⟩).extent (h.recordExtent ⟨31, 0⟩)
      ∧ populateTurns 0 2 h = (populate 0 >>= fun _ => pure true) h := by
  obtain ⟨h, hrun, hcheck⟩ := SmallRun.of_worked SizeClasses.accepted_compact
    (show 20 ≤ 20 by decide) (by decide)
    (show (worked .compact 20 24 [.allocate 32768 8, .schedule [⟨.mprotect, 12, 0⟩], .allocate 8 8]).any
      (fun h => decide (h.classes.count = 32 ∧ h.classes.size 0 = 8 ∧ h.classes.size 31 = 32768
        ∧ h.regions[31]?.map (·.allocatedUser) = some 229376
        ∧ h.regions[0]?.map (·.allocatedUser) = some 0
        ∧ h.regions[0]?.map (·.freeList) = some [])) = true by decide +kernel)
  obtain ⟨hcount, hsmall, hlarge, hcarved, hnone, hempty⟩ := of_decide_eq_true hcheck
  obtain ⟨hregions, -, hapart, hlocate, -, hpopulate⟩ := hrun.geometry
  obtain ⟨r, n, hr, hn, -, hslots, -⟩ := hregions 31 (by rw [hcount]; decide)
  obtain ⟨q, m, hq, hm, -, hslots', -⟩ := hregions 0 (by rw [hcount]; decide)
  rw [hr] at hcarved
  rw [hq] at hnone hempty
  replace hcarved : r.allocatedUser = 229376 := Option.some.inj hcarved
  replace hnone : q.allocatedUser = 0 := Option.some.inj hnone
  rw [hlarge] at hn
  rw [hsmall] at hm
  have hseven : n = 7 := by omega
  have hzero : m = 0 := by omega
  have hsix : h.Carved ⟨31, 6⟩ := (hslots 6).mpr (by omega)
  refine ⟨h, hrun, hsix, mt (hslots 7).mp (by omega), fun slot => mt (hslots' slot).mp (by omega),
    (hlocate _ _).mpr ⟨hsix, Nat.le_add_right _ _, ?_⟩,
    (hapart _ ⟨31, 0⟩ hsix ((hslots 0).mpr (by omega))).2,
    (hpopulate 0 q hq (Option.some.inj hempty)).1 0⟩
  show h.slotBegin ⟨31, 6⟩ + 100 < h.slotBegin ⟨31, 6⟩ + h.classes.size 31
  rw [hlarge]
  omega

end GuardedHeap.Heap
