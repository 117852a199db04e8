import GuardedHeap.Proofs.Heap.Blocks
import GuardedHeap.Redzone.Basic

/-! # Outlines — what an operation on a heap changes

    An `Outline` is the part of a scene that a heap alone decides: blocks,
    accessible bytes, contents and free lists.  `Becomes s t o` says that a
    heap has got from `s` to a well-formed `t` with the outline `o`.  Here
    are the steps that change one thing each: a mark in the shadow, bytes,
    a record, a free list. -/

namespace GuardedHeap

/-- What a heap decides of a scene. -/
structure Outline where
  blocks : Set Block
  opened : Set Nat
  contents : Nat → UInt8
  free : Nat → List Nat

namespace Outline

/-- No address of the set can be accessed. -/
def close (o : Outline) (addrs : Set Nat) : Outline :=
  { o with opened := o.opened \ addrs }

/-- The bytes of a range can be accessed, the other ones of the set cannot. -/
def reopen (o : Outline) (addrs user : Set Nat) : Outline :=
  { o with opened := o.opened \ addrs ∪ user }

/-- The bytes of a range are others. -/
def write (o : Outline) (lo n : Nat) (content : Nat → UInt8) : Outline :=
  { o with contents := overlay lo n content o.contents }

/-- A block has another record. -/
def setRecord (o : Outline) (b : Block) (r : ChunkRecord) : Outline :=
  { o with blocks := exchange o.blocks b (b.withRecord r) }

/-- A class has another free list. -/
def setFree (o : Outline) (c : Nat) (l : List Nat) : Outline :=
  { o with free := Function.update o.free c l }

/-- There are fresh blocks. -/
def grow (o : Outline) (k : BlockClass) (size : Nat) (fresh : List Nat) : Outline :=
  { o with blocks := o.blocks ∪ {b | ∃ p ∈ fresh, b = Block.blank p size k} }

end Outline

namespace Heap

/-- The free blocks of a class that no thread holds. -/
def free (h : Heap) (c : Nat) : List Nat :=
  ((h.regions[c]?).map (·.freeList)).getD []

/-- The outline of a heap. -/
def outline (h : Heap) : Outline where
  blocks := h.blocks
  opened := h.opened
  contents := h.contents
  free := h.free

/-- The heap has become `t`, which is well-formed and has this outline. -/
structure Becomes (s t : Heap) (o : Outline) : Prop where
  wf : t.WF
  classes : t.classes = s.classes
  outline : t.outline = o
  calm : s.pages.armed = none → t.pages.armed = none

namespace Becomes

variable {s t u : Heap} {o : Outline}

/-- A heap that stays keeps its outline. -/
theorem refl (hwf : s.WF) : Becomes s s s.outline :=
  ⟨hwf, rfl, rfl, id⟩

/-- Outlines change one after the other. -/
theorem trans {f : Outline → Outline} (h : Becomes s t o) (h' : Becomes t u (f t.outline)) :
    Becomes s u (f o) :=
  ⟨h'.wf, h'.classes.trans h.classes, by rw [h'.outline, h.outline], fun ha => h'.calm (h.calm ha)⟩

theorem blocks (h : Becomes s t o) : t.blocks = o.blocks := by
  rw [← h.outline]
  rfl

theorem opened (h : Becomes s t o) : t.opened = o.opened := by
  rw [← h.outline]
  rfl

theorem contents (h : Becomes s t o) : t.contents = o.contents := by
  rw [← h.outline]
  rfl

theorem free (h : Becomes s t o) : t.free = o.free := by
  rw [← h.outline]
  rfl

end Becomes

/-! ## Marks -/

variable {h : Heap} {b : Block}

/-- Another shadow of the same range changes nothing but what can be accessed. -/
theorem WF.withShadow (hwf : h.WF) {shadow : Shadow} (hrange : Shadow.SameRange h.shadow shadow) :
    Becomes h { h with shadow }
      { h.outline with opened := {a | a ∈ h.committed ∧ shadow.Addressable a} } where
  wf :=
    { layout :=
        { hwf.layout with
          shadow_begin := hrange.appBegin.trans hwf.layout.shadow_begin
          shadow_end := hrange.appEnd.trans hwf.layout.shadow_end
          shadow_placed := hwf.layout.shadow_placed.kept hrange }
      region := hwf.region
      large := hwf.large
      backed := hwf.backed
      records := hwf.records }
  classes := rfl
  outline := rfl
  calm := id

/-- What is committed has addresses. -/
theorem WF.lt_limit (hwf : h.WF) {a : Nat} (ha : a ∈ h.committed) : a < Word.limit :=
  Nat.lt_trans (hwf.committed_bounds ha).2 hwf.layout.end_lt

/-- Poisoning whole granules closes them. -/
theorem WF.withPoisoned (hwf : h.WF) {addr size : Nat} (value : UInt8)
    (haddr : Shadow.granule ∣ addr) (hsize : Shadow.granule ∣ size)
    (hvalue : Shadow.addressableBytes value = 0) :
    Becomes h { h with shadow := h.shadow.poisoned addr size value }
      (h.outline.close (Set.Ico addr (addr + size))) := by
  have hstep := hwf.withShadow (Shadow.poisoned_sameRange h.shadow addr size value)
  have hopened : {a | a ∈ h.committed ∧ (h.shadow.poisoned addr size value).Addressable a} =
      h.opened \ Set.Ico addr (addr + size) := by
    ext a
    constructor
    · rintro ⟨hin, haddressable⟩
      obtain ⟨hold, hout⟩ := (Shadow.addressable_poisoned h.shadow haddr hsize hvalue
        (hwf.lt_limit hin)).mp haddressable
      exact ⟨⟨hin, hold⟩, hout⟩
    · rintro ⟨⟨hin, hold⟩, hout⟩
      exact ⟨hin, (Shadow.addressable_poisoned h.shadow haddr hsize hvalue
        (hwf.lt_limit hin)).mpr ⟨hold, hout⟩⟩
  refine ⟨hstep.wf, rfl, ?_, id⟩
  rw [hstep.outline, hopened]
  rfl

/-- Making committed bytes accessible opens them and closes the rest of their last granule. -/
theorem WF.withUnpoisoned (hwf : h.WF) {addr : Nat} (size : Nat) (haddr : Shadow.granule ∣ addr)
    (hin : Set.Ico addr (addr + size) ⊆ h.committed) :
    Becomes h { h with shadow := h.shadow.poisoned addr size 0 }
      (h.outline.reopen (Set.Ico addr (Word.roundUp (addr + size) Shadow.granule))
        (Set.Ico addr (addr + size))) := by
  have hstep := hwf.withShadow (Shadow.poisoned_sameRange h.shadow addr size 0)
  have hopened : {a | a ∈ h.committed ∧ (h.shadow.poisoned addr size 0).Addressable a} =
      h.opened \ Set.Ico addr (Word.roundUp (addr + size) Shadow.granule)
        ∪ Set.Ico addr (addr + size) := by
    ext a
    constructor
    · rintro ⟨hcommitted, haddressable⟩
      rcases (Shadow.addressable_unpoisoned h.shadow haddr (hwf.lt_limit hcommitted)).mp
        haddressable with huser | ⟨hold, hout⟩
      · exact .inr huser
      · exact .inl ⟨⟨hcommitted, hold⟩, hout⟩
    · rintro (⟨⟨hcommitted, hold⟩, hout⟩ | huser)
      · exact ⟨hcommitted, (Shadow.addressable_unpoisoned h.shadow haddr
          (hwf.lt_limit hcommitted)).mpr (.inr ⟨hold, hout⟩)⟩
      · have hcommitted := hin huser
        exact ⟨hcommitted, (Shadow.addressable_unpoisoned h.shadow haddr
          (hwf.lt_limit hcommitted)).mpr (.inl huser)⟩
  refine ⟨hstep.wf, rfl, ?_, id⟩
  rw [hstep.outline, hopened]
  rfl

/-- A mark of a tracked range that begins with a granule is made. -/
theorem ends_onShadow {ε : Type} {f : ShadowError → ε} {addr size : Nat} {value : UInt8}
    {ok : Unit → Heap → Prop} {no : ε → Heap → Prop} (hl : h.Layout)
    (haddr : Shadow.granule ∣ addr)
    (hin : h.space.begin ≤ addr ∧ addr + size ≤ h.space.endAddr)
    (hok : ok () { h with shadow := h.shadow.poisoned addr size value }) :
    Act.Ends (onShadow f (Shadow.poison addr size value)) h ok no := by
  unfold onShadow
  rw [Act.ends_mapError, Act.ends_onPart]
  refine Shadow.ends_poison haddr ?_ hok
  rw [hl.shadow_begin, hl.shadow_end]
  exact hin

/-! ## Bytes -/

/-- Other bytes change nothing else. -/
theorem WF.withBytes (hwf : h.WF) (bytes : RangeMap UInt8) {lo n : Nat} {content : Nat → UInt8}
    (hbytes : ∀ a, a < Word.limit →
      bytes.get a = if lo ≤ a ∧ a < lo + n then content a else h.pages.byte a)
    (hin : lo + n ≤ Word.limit) :
    Becomes h { h with pages := { h.pages with bytes } } (h.outline.write lo n content) where
  wf :=
    { layout := { hwf.layout with }
      region := hwf.region
      large := hwf.large
      backed := hwf.backed
      records := hwf.records }
  classes := rfl
  outline := by
    have hcontents : { h with pages := { h.pages with bytes } }.contents =
        overlay lo n content h.contents := by
      funext a
      simp only [contents, overlay]
      by_cases ha : a < Word.limit
      · rw [if_pos ha, if_pos ha]
        exact hbytes a ha
      · rw [if_neg ha, if_neg ha, if_neg (by omega)]
    unfold outline
    rw [hcontents]
    rfl
  calm := id

/-- A fill writes the bytes to the range. -/
theorem WF.withFill (hwf : h.WF) (addr : Nat) {n : Nat} (value : UInt8) (hin : addr + n ≤ Word.limit) :
    Becomes h (h.mapPages (·.writeFill addr n value)) (h.outline.write addr n fun _ => value) :=
  hwf.withBytes _ (fun a ha => RangeMap.get_fill h.pages.bytes _ _ value a ha) hin

/-- A copy writes the bytes of the other range, as they were. -/
theorem WF.withCopy (hwf : h.WF) (source target : Nat) {n : Nat} (hsource : source + n ≤ Word.limit)
    (htarget : target + n ≤ Word.limit) :
    Becomes h (h.mapPages (·.copy source target n))
      (h.outline.write target n fun a => h.contents (source + (a - target))) := by
  refine hwf.withBytes _ (fun a ha => ?_) htarget
  rw [RangeMap.get_copy h.pages.bytes target hsource ha]
  by_cases hcopied : target ≤ a ∧ a < target + n
  · rw [if_pos hcopied, if_pos hcopied, contents, if_pos (by omega)]
    rfl
  · rw [if_neg hcopied, if_neg hcopied]
    rfl

/-- A write stores its bytes. -/
theorem WF.withWrite (hwf : h.WF) (addr : Nat) (bytes : List UInt8)
    (hin : addr + bytes.length ≤ Word.limit) :
    Becomes h (h.mapPages (·.write addr bytes))
      (h.outline.write addr bytes.length fun a => (bytes[a - addr]?).getD 0) := by
  refine hwf.withBytes _ (fun a ha => ?_) hin
  rw [RangeMap.get_setList _ _ _ ha]
  by_cases hle : addr ≤ a
  · by_cases hlt : a < addr + bytes.length
    · rw [if_pos hle, if_pos ⟨hle, hlt⟩, List.getElem?_eq_getElem (by omega)]
      rfl
    · rw [if_pos hle, if_neg (fun hh => hlt hh.2), List.getElem?_eq_none (by omega)]
      rfl
  · rw [if_neg hle, if_neg (fun hh => hle hh.1)]
    rfl

/-! ## Regions -/

/-- A region that is put back is the only one that changes. -/
theorem regions_setRegion {c c' : Nat} {r : Region} (hc : c < h.regions.size) :
    (h.setRegion c r).regions[c']? = if c' = c then some r else h.regions[c']? := by
  show (h.regions.setIfInBounds c r)[c']? = _
  rw [Array.getElem?_setIfInBounds]
  by_cases hcc : c' = c
  · subst hcc
    rw [if_pos rfl, if_pos rfl, if_pos hc]
  · rw [if_neg (Ne.symm hcc), if_neg hcc]

theorem size_setRegion {c : Nat} {r : Region} : (h.setRegion c r).regions.size = h.regions.size :=
  Array.size_setIfInBounds

/-- A region may be replaced by one that is well-formed and committed. -/
theorem WF.setRegion (hwf : h.WF) {c : Nat} {r : Region} (hc : c < h.regions.size)
    (hr : Region.WF r h.regionSize (h.classes.size c))
    (huser : ∀ a, h.regionBegin c ≤ a → a < h.regionBegin c + r.mappedUser → h.pages.Writable a)
    (hrecords : ∀ a, h.regionBegin c + h.regionSize - r.mappedMeta ≤ a →
      a < h.regionBegin c + h.regionSize → h.pages.Writable a) : (h.setRegion c r).WF where
  layout :=
    { hwf.layout with
      regions := size_setRegion.trans hwf.layout.regions
      large_begin := by
        show h.large.begin = h.space.begin + (h.setRegion c r).regions.size * h.regionSize
        rw [size_setRegion]
        exact hwf.layout.large_begin }
  region c' r' hr' := by
    rw [regions_setRegion hc] at hr'
    by_cases hcc : c' = c
    · rw [if_pos hcc] at hr'
      obtain rfl := Option.some.inj hr'
      exact hcc ▸ hr
    · rw [if_neg hcc] at hr'
      exact hwf.region c' r' hr'
  large := hwf.large
  -- Only the pages of this region are other ones; those of the rest are backed as before.
  backed a ha := by
    rcases ha with ⟨c', r', hr', hlo, hhi⟩ | hlarge
    · rw [regions_setRegion hc] at hr'
      by_cases hcc : c' = c
      · rw [if_pos hcc] at hr'
        obtain rfl := Option.some.inj hr'
        subst hcc
        exact huser a hlo hhi
      · rw [if_neg hcc] at hr'
        exact hwf.backed a (.inl ⟨c', r', hr', hlo, hhi⟩)
    · exact hwf.backed a (.inr hlarge)
  records c' r' hr' a hlo hhi := by
    rw [regions_setRegion hc] at hr'
    by_cases hcc : c' = c
    · rw [if_pos hcc] at hr'
      obtain rfl := Option.some.inj hr'
      subst hcc
      exact hrecords a hlo hhi
    · rw [if_neg hcc] at hr'
      exact hwf.records c' r' hr' a hlo hhi

/-- A region that commits as much as the one before commits the same addresses. -/
theorem committed_setRegion {c : Nat} {r r' : Region} (hr : h.regions[c]? = some r)
    (hmapped : r'.mappedUser = r.mappedUser) : (h.setRegion c r').committed = h.committed := by
  have hc := lt_size_of_region hr
  ext a
  constructor
  · rintro (⟨c', q, hq, hlo, hhi⟩ | hlarge)
    · rw [regions_setRegion hc] at hq
      by_cases hcc : c' = c
      · rw [if_pos hcc] at hq
        obtain rfl := Option.some.inj hq
        subst hcc
        exact .inl ⟨c', r, hr, hlo, hmapped ▸ hhi⟩
      · rw [if_neg hcc] at hq
        exact .inl ⟨c', q, hq, hlo, hhi⟩
    · exact .inr hlarge
  · rintro (⟨c', q, hq, hlo, hhi⟩ | hlarge)
    · by_cases hcc : c' = c
      · subst hcc
        rw [hr] at hq
        obtain rfl := Option.some.inj hq
        exact .inl ⟨c', r', by rw [regions_setRegion hc, if_pos rfl], hlo, hmapped ▸ hhi⟩
      · exact .inl ⟨c', q, by rw [regions_setRegion hc, if_neg hcc]; exact hq, hlo, hhi⟩
    · exact .inr hlarge

/-- The free list of a region that is put back is the only one that changes. -/
theorem free_setRegion {c : Nat} {r : Region} (hc : c < h.regions.size) :
    (h.setRegion c r).free = Function.update h.free c r.freeList := by
  funext c'
  unfold free
  rw [regions_setRegion hc, Function.update_apply]
  by_cases hcc : c' = c
  · rw [if_pos hcc, if_pos hcc]
    rfl
  · rw [if_neg hcc, if_neg hcc]

/-- The records and the free list of a region may change as long as no slot beyond the carved
    ones has a record. -/
theorem WF.setRegion_spec (hwf : h.WF) {c : Nat} {r : Region} (hr : h.regions[c]? = some r)
    (freeList : List Nat) (records : RangeMap ChunkRecord)
    (hfresh : ∀ n, r.allocatedUser = n * h.classes.size c → ∀ slot, n ≤ slot →
      slot < RangeMap.span → records.get slot = r.records.get slot) :
    Becomes h (h.setRegion c { r with freeList, records })
      { h.outline with
        blocks := (h.setRegion c { r with freeList, records }).blocks
        free := Function.update h.free c freeList } := by
  have hc := lt_size_of_region hr
  have hregion := hwf.region c r hr
  refine ⟨hwf.setRegion hc ?_ ?_ ?_, rfl, ?_, id⟩
  · obtain ⟨n, huser, hmeta, hblank⟩ := hregion.user
    refine { hregion with user := ⟨n, huser, hmeta, fun slot hlo hhi => ?_⟩ }
    exact (hfresh n huser slot hlo hhi).trans (hblank slot hlo hhi)
  · exact fun a hlo hhi => hwf.backed a (.inl ⟨c, r, hr, hlo, hhi⟩)
  · exact fun a hlo hhi => hwf.records c r hr a hlo hhi
  · have hcommitted : (h.setRegion c { r with freeList, records }).committed = h.committed :=
      committed_setRegion hr rfl
    have hopened : (h.setRegion c { r with freeList, records }).opened = h.opened := by
      unfold opened
      rw [hcommitted]
      rfl
    unfold outline
    rw [hopened, free_setRegion hc]
    rfl

/-- As long as no slots are carved, the carved slots stay. -/
theorem carved_setRegion {c : Nat} {r r' : Region} (hr : h.regions[c]? = some r)
    (hsame : r'.allocatedUser = r.allocatedUser) (s : Slot) :
    (h.setRegion c r').Carved s ↔ h.Carved s := by
  have hc := lt_size_of_region hr
  unfold Carved
  rw [regions_setRegion hc]
  by_cases hcc : s.classId = c
  · rw [if_pos hcc, hcc, hr]
    simp only [Option.some.injEq, exists_eq_left', hsame]
    exact Iff.rfl
  · rw [if_neg hcc]
    exact Iff.rfl

/-- Slots keep their records if the region does. -/
theorem slotBlock_setRegion {c : Nat} {r r' : Region} (hr : h.regions[c]? = some r)
    (hsame : r'.records = r.records) (s : Slot) : (h.setRegion c r').slotBlock s = h.slotBlock s := by
  have hrecord : (h.setRegion c r').slotRecord s = h.slotRecord s := by
    unfold slotRecord
    rw [regions_setRegion (lt_size_of_region hr)]
    by_cases hcc : s.classId = c
    · rw [if_pos hcc, hcc, hr]
      exact congrArg (·.get s.slot) hsame
    · rw [if_neg hcc]
  unfold slotBlock
  rw [hrecord]
  rfl

/-- A region with the same slots and records has the same blocks. -/
theorem blocks_setRegion {c : Nat} {r r' : Region} (hr : h.regions[c]? = some r)
    (hcarved : r'.allocatedUser = r.allocatedUser) (hrecords : r'.records = r.records) :
    (h.setRegion c r').blocks = h.blocks := by
  unfold blocks
  simp only [carved_setRegion hr hcarved, slotBlock_setRegion hr hrecords]
  rfl

theorem update_free {c : Nat} {r : Region} (hr : h.regions[c]? = some r) :
    Function.update h.free c r.freeList = h.free := by
  refine Function.update_eq_self_iff.mpr ?_
  unfold free
  rw [hr]
  rfl

/-- Another free list changes nothing else. -/
theorem WF.setFreeList (hwf : h.WF) {c : Nat} {r : Region} (hr : h.regions[c]? = some r)
    (freeList : List Nat) :
    Becomes h (h.setRegion c { r with freeList }) (h.outline.setFree c freeList) := by
  have hstep := hwf.setRegion_spec hr freeList r.records fun _ _ _ _ _ => rfl
  have hblocks : (h.setRegion c { r with freeList, records := r.records }).blocks = h.blocks :=
    blocks_setRegion hr rfl rfl
  exact ⟨hstep.wf, rfl, by rw [hstep.outline, hblocks]; rfl, id⟩

/-! ## Records -/

/-- A slot has a number that is a word. -/
theorem WF.slot_lt (hwf : h.WF) {s : Slot} (hcarved : h.Carved s) : s.slot < RangeMap.span := by
  obtain ⟨r, hr, hle⟩ := hcarved
  have hc := lt_size_of_region hr
  have hregion := hwf.region _ r hr
  have hsize := Nat.mul_le_mul_left (s.slot + 1) (hwf.size_pos hc)
  have huser := Nat.le_trans hregion.user_le hregion.mappedUser_le
  have hend := region_le_primaryEnd hc
  have hlayout := hwf.layout
  have hle' := hlayout.large_le
  rw [hlayout.large_begin, hlayout.large_past] at hle'
  have hlimit := hlayout.end_lt
  simp only [Word.limit, RangeMap.span] at *
  omega

/-- Two slots have different blocks. -/
theorem WF.slotBlock_inj (hwf : h.WF) {s s' : Slot} (hs : h.Carved s) (hs' : h.Carved s')
    (hsame : h.slotBlock s' = h.slotBlock s) : s' = s := by
  have hin := Block.begin_mem_extent (hwf.tiled.solid _ (.inl ⟨s', hs', rfl⟩))
  have hlocate' := (hwf.locate?_eq hs' hin).2.2
  rw [hsame] at hin hlocate'
  rw [(hwf.locate?_eq hs hin).2.2] at hlocate'
  exact (Option.some.inj hlocate').symm

/-- A record is set in the region of its slot. -/
theorem setSlotRecord_eq {s : Slot} {r : Region} (hr : h.regions[s.classId]? = some r)
    (record : ChunkRecord) :
    h.setSlotRecord s record =
      h.setRegion s.classId { r with records := r.records.set s.slot record } := by
  unfold setSlotRecord
  rw [hr]

/-- The record of a slot is the only one that changes. -/
theorem WF.slotRecord_setSlotRecord (hwf : h.WF) {s s' : Slot} (hs : h.Carved s)
    (hs' : h.Carved s') (record : ChunkRecord) :
    (h.setSlotRecord s record).slotRecord s' = if s' = s then record else h.slotRecord s' := by
  obtain ⟨r, hr, -⟩ := hs
  rw [setSlotRecord_eq hr]
  unfold slotRecord
  rw [regions_setRegion (lt_size_of_region hr)]
  by_cases hclass : s'.classId = s.classId
  · rw [if_pos hclass, hclass, hr]
    show (r.records.set s.slot record).get s'.slot = if s' = s then record else r.records.get s'.slot
    rw [RangeMap.get_set _ _ _ _ (hwf.slot_lt hs')]
    by_cases hslot : s'.slot = s.slot
    · have hsame : s' = s := by
        cases s
        cases s'
        simp_all
      rw [if_pos hslot, if_pos hsame]
    · rw [if_neg hslot, if_neg (fun hsame : s' = s => hslot (hsame ▸ rfl))]
  · rw [if_neg hclass, if_neg (fun hsame : s' = s => hclass (hsame ▸ rfl))]

/-- The block of the slot is the only one that changes. -/
theorem WF.slotBlock_setSlotRecord (hwf : h.WF) {s s' : Slot} (hs : h.Carved s)
    (hs' : h.Carved s') (record : ChunkRecord) :
    (h.setSlotRecord s record).slotBlock s' =
      if s' = s then (h.slotBlock s).withRecord record else h.slotBlock s' := by
  have hrecord := hwf.slotRecord_setSlotRecord hs hs' record
  have hplace : (h.setSlotRecord s record).slotBlock s' =
      (h.slotBlock s').withRecord ((h.setSlotRecord s record).slotRecord s') := by
    obtain ⟨r, hr, -⟩ := hs
    rw [setSlotRecord_eq hr]
    rfl
  rw [hplace, hrecord]
  by_cases hsame : s' = s
  · rw [if_pos hsame, if_pos hsame, hsame]
  · rw [if_neg hsame, if_neg hsame]
    rfl

/-- The block of the slot is exchanged for one with the new record. -/
theorem WF.blocks_setSlotRecord (hwf : h.WF) {s : Slot} (hs : h.Carved s) (record : ChunkRecord) :
    (h.setSlotRecord s record).blocks =
      exchange h.blocks (h.slotBlock s) ((h.slotBlock s).withRecord record) := by
  have hcarved : ∀ s', (h.setSlotRecord s record).Carved s' ↔ h.Carved s' := by
    obtain ⟨r, hr, -⟩ := hs
    rw [setSlotRecord_eq hr]
    exact carved_setRegion hr rfl
  have hlarge : (h.setSlotRecord s record).large = h.large := by
    obtain ⟨r, hr, -⟩ := hs
    rw [setSlotRecord_eq hr]
    rfl
  ext b
  rw [mem_exchange]
  constructor
  · rintro (⟨s', hs', rfl⟩ | ⟨l, hl, rfl⟩)
    · have hs' := (hcarved s').mp hs'
      rw [hwf.slotBlock_setSlotRecord hs hs']
      by_cases hsame : s' = s
      · exact .inl (if_pos hsame)
      · rw [if_neg hsame]
        exact .inr ⟨.inl ⟨s', hs', rfl⟩, fun heq => hsame (hwf.slotBlock_inj hs hs' heq)⟩
    · rw [hlarge] at hl
      exact .inr ⟨.inr ⟨l, hl, rfl⟩, fun heq => nomatch congrArg Block.kind heq⟩
  · rintro (rfl | ⟨⟨s', hs', rfl⟩ | ⟨l, hl, rfl⟩, hne⟩)
    · refine .inl ⟨s, (hcarved s).mpr hs, ?_⟩
      rw [hwf.slotBlock_setSlotRecord hs hs, if_pos rfl]
    · refine .inl ⟨s', (hcarved s').mpr hs', ?_⟩
      rw [hwf.slotBlock_setSlotRecord hs hs', if_neg (fun heq : s' = s => hne (heq ▸ rfl))]
    · refine .inr ⟨l, ?_, rfl⟩
      rw [hlarge]
      exact hl

/-- A record of a slot changes the outline by that record. -/
theorem WF.setSlotRecord (hwf : h.WF) {s : Slot} (hs : h.Carved s) (record : ChunkRecord) :
    Becomes h (h.setSlotRecord s record) (h.outline.setRecord (h.slotBlock s) record) := by
  have hblocks := hwf.blocks_setSlotRecord hs record
  obtain ⟨r, hr, hle⟩ := hs
  have hc := lt_size_of_region hr
  -- The slot is one of the carved ones, so no slot beyond them gets a record.
  have hstep := hwf.setRegion_spec hr r.freeList (r.records.set s.slot record) (by
    intro n hn slot hlo hhi
    have hlt : s.slot < n := by
      by_contra hge
      have hmul := Nat.mul_le_mul_right (h.classes.size s.classId) (Nat.le_of_not_lt hge)
      have hpos := hwf.size_pos hc
      rw [Nat.succ_mul] at hle
      omega
    rw [RangeMap.get_set _ _ _ _ hhi, if_neg (by omega)])
  rw [setSlotRecord_eq hr] at hblocks ⊢
  refine ⟨hstep.wf, rfl, ?_, id⟩
  have houtline := hstep.outline
  rw [update_free hr] at houtline
  refine houtline.trans ?_
  unfold Outline.setRecord
  rw [← show _ = exchange h.outline.blocks _ _ from hblocks]
  rfl

/-- The large blocks may be replaced by others in committed mappings. -/
theorem WF.withLarge (hwf : h.WF) {large : Large} (hbegin : large.begin = h.large.begin)
    (hpast : large.past = h.large.past) (hlarge : large.WF)
    (hbacked : ∀ l ∈ large.bodies, ∀ a ∈ l.mapping, h.pages.Writable a) :
    ({ h with large } : Heap).WF where
  layout :=
    { hwf.layout with
      large_begin := hbegin.trans hwf.layout.large_begin
      large_past := hpast.trans hwf.layout.large_past
      large_le := by
        show large.begin ≤ large.past
        rw [hbegin, hpast]
        exact hwf.layout.large_le }
  region := hwf.region
  large := hlarge
  backed a ha := by
    rcases ha with hregion | ⟨l, hl, ha⟩
    · exact hwf.backed a (.inl hregion)
    · exact hbacked l hl a ha
  records := hwf.records

/-- The large block with the address is the only one that changes. -/
theorem bodies_setRecord {l : Large} {p : Nat} {r : ChunkRecord} :
    (l.setRecord p r).bodies =
      l.bodies.map fun b => if b.user = p then { b with record := r } else b := by
  unfold Large.bodies Large.setRecord
  simp only [List.map_map]
  refine List.map_congr_left fun b _ => ?_
  simp only [Function.comp_apply]
  by_cases hb : b.user = p
  · rw [if_pos hb, if_pos (show b.body.user = p from hb)]
    rfl
  · rw [if_neg hb, if_neg (show ¬ b.body.user = p from hb)]

/-- A record says nothing about the place of a block. -/
theorem placed_record {lo hi p : Nat} {b : LargeBlock} {r : ChunkRecord} (hb : b.Placed lo hi) :
    (if b.user = p then { b with record := r } else b).Placed lo hi
      ∧ (if b.user = p then { b with record := r } else b).mapping = b.mapping := by
  split
  · exact ⟨{ hb with }, rfl⟩
  · exact ⟨hb, rfl⟩

theorem mapping_record {p : Nat} {b : LargeBlock} {r : ChunkRecord} :
    (if b.user = p then { b with record := r } else b).mapping = b.mapping := by
  split <;> rfl

/-- Other records leave the mappings as they are. -/
theorem wf_setRecord {l : Large} (hl : l.WF) (p : Nat) (r : ChunkRecord) : (l.setRecord p r).WF := by
  refine ⟨hl.spans, hl.spans_past, ?_, ?_, ?_⟩
  · rw [bodies_setRecord]
    rintro b hb
    obtain ⟨c, hc, rfl⟩ := List.mem_map.mp hb
    exact (placed_record (hl.placed c hc)).1
  · rw [bodies_setRecord, List.pairwise_map]
    refine hl.apart.imp fun {b c} hd => ?_
    rwa [mapping_record, mapping_record]
  · rw [bodies_setRecord]
    rintro b hb
    obtain ⟨c, hc, rfl⟩ := List.mem_map.mp hb
    rw [mapping_record]
    exact hl.taken c hc

/-- Another record maps nothing. -/
theorem mapped_setRecord {l : Large} {p a : Nat} {r : ChunkRecord} :
    (∃ b ∈ (l.setRecord p r).bodies, a ∈ b.mapping) ↔ ∃ b ∈ l.bodies, a ∈ b.mapping := by
  rw [bodies_setRecord]
  constructor
  · rintro ⟨b, hb, ha⟩
    obtain ⟨c, hc, rfl⟩ := List.mem_map.mp hb
    rw [mapping_record] at ha
    exact ⟨c, hc, ha⟩
  · rintro ⟨c, hc, ha⟩
    refine ⟨_, List.mem_map_of_mem hc, ?_⟩
    rwa [mapping_record]

/-- The users of large blocks tell them apart. -/
theorem WF.eq_of_user (hwf : h.WF) {l m : LargeBlock} (hm : m ∈ h.large.bodies) (hl : l ∈ h.large.bodies)
    (huser : m.user = l.user) : m = l := by
  have hmin := (hwf.large.placed m hm).lt_past
  have hlin := (hwf.large.placed l hl).lt_past
  refine hwf.large.eq_of_mem hm hl (a := m.user) ?_ ?_
  · exact (hwf.large.placed m hm).extent_subset ⟨Nat.le_refl _, hmin⟩
  · rw [huser]
    exact (hwf.large.placed l hl).extent_subset ⟨Nat.le_refl _, hlin⟩

/-- A large block gets another record, and no other block is a different one. -/
theorem WF.blocks_setLargeRecord (hwf : h.WF) {l : LargeBlock} (hl : l ∈ h.large.bodies)
    (record : ChunkRecord) :
    ({ h with large := h.large.setRecord l.user record } : Heap).blocks =
      exchange h.blocks l.block (l.block.withRecord record) := by
  ext b
  rw [mem_exchange]
  constructor
  · rintro (⟨s, hs, rfl⟩ | ⟨m, hm, rfl⟩)
    · exact .inr ⟨.inl ⟨s, hs, rfl⟩, fun hsame => nomatch congrArg Block.kind hsame⟩
    · change m ∈ (h.large.setRecord l.user record).bodies at hm
      rw [bodies_setRecord] at hm
      obtain ⟨c, hc, rfl⟩ := List.mem_map.mp hm
      by_cases huser : c.user = l.user
      · obtain rfl := hwf.eq_of_user hc hl huser
        rw [if_pos rfl]
        exact .inl rfl
      · rw [if_neg huser]
        refine .inr ⟨.inr ⟨c, hc, rfl⟩, fun hsame => huser ?_⟩
        exact congrArg Block.begin hsame
  · rintro (rfl | ⟨⟨s, hs, rfl⟩ | ⟨m, hm, rfl⟩, hne⟩)
    · refine .inr ⟨{ l with record }, ?_, rfl⟩
      show _ ∈ (h.large.setRecord l.user record).bodies
      rw [bodies_setRecord]
      exact List.mem_map.mpr ⟨l, hl, if_pos rfl⟩
    · exact .inl ⟨s, hs, rfl⟩
    · refine .inr ⟨m, ?_, rfl⟩
      show m ∈ (h.large.setRecord l.user record).bodies
      rw [bodies_setRecord]
      refine List.mem_map.mpr ⟨m, hm, if_neg fun huser => hne ?_⟩
      rw [hwf.eq_of_user hm hl huser]

/-- A record of a large block changes the outline by that record. -/
theorem WF.setLargeRecord (hwf : h.WF) {l : LargeBlock} (hl : l ∈ h.large.bodies)
    (record : ChunkRecord) :
    Becomes h { h with large := h.large.setRecord l.user record }
      (h.outline.setRecord l.block record) := by
  have hlarge := wf_setRecord hwf.large l.user record
  have hcommitted :
      ({ h with large := h.large.setRecord l.user record } : Heap).committed = h.committed := by
    ext a
    exact or_congr Iff.rfl mapped_setRecord
  refine ⟨hwf.withLarge rfl rfl hlarge fun m hm a ha => ?_, rfl, ?_, id⟩
  · exact hwf.backed a (.inr (mapped_setRecord.mp ⟨m, hm, ha⟩))
  · unfold outline opened
    rw [hcommitted, hwf.blocks_setLargeRecord hl record]
    rfl

/-- Giving a block another record does just that. -/
theorem WF.setRecord (hwf : h.WF) (hb : b ∈ h.blocks) (record : ChunkRecord) :
    Becomes h (h.setRecord b.begin record) (h.outline.setRecord b record) := by
  have hin := Block.begin_mem_extent (hwf.tiled.solid b hb)
  unfold Heap.setRecord
  rcases hb with ⟨s, hs, rfl⟩ | ⟨l, hl, rfl⟩
  · obtain ⟨hprimary, -, hlocate⟩ := hwf.locate?_eq hs hin
    rw [if_pos hprimary, hlocate]
    exact hwf.setSlotRecord hs record
  · have hmap := (hwf.large.placed l hl).extent_subset hin
    rw [if_neg (by rw [(hwf.mapping_bounds hl hmap).2.2]; decide)]
    exact hwf.setLargeRecord hl record

end Heap

end GuardedHeap
