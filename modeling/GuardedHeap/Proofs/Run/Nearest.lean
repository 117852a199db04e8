import GuardedHeap.Proofs.Run.Reports

/-! # Nearest chunks — whose chunk an address is meant for

    An address belongs to at most one block (`Heap.Holds`), and in a
    region there may be a block right below that one (`Heap.Below`).  Of
    their chunks, unless they are recycled, the one whose bytes are nearer
    is meant (`Heap.Nearest`).

    From the user's first byte on no distances are compared, as the chunk
    below ends in front of the block (`Heap.WF.nearest_from_user`).  Before
    it the chunk below is looked up at the last byte in front of the block.
    In front of a region that byte is in no block: the records of the
    region below keep its blocks away from its end
    (`Heap.WF.chunk?_lowest`), and below the lowest region there is no
    mapping. -/

namespace GuardedHeap

/-- How far the address is from the user's bytes; the address behind them still has no distance. -/
def Block.distance (b : Block) (addr : Nat) : Nat :=
  (b.record.userBegin - addr) + (addr - (b.record.userBegin + b.record.requestedSize))

namespace Heap

/-- The block whose slot holds the address, or whose mapping does: with the pages in front of the block,
    but only up to its end. -/
inductive Holds (h : Heap) (addr : Nat) : Block → Prop where
  | slot {s : Slot} (carved : h.Carved s) (mem : addr ∈ (h.slotBlock s).extent) :
      Holds h addr (h.slotBlock s)
  | mapping {l : LargeBlock} (mem : l ∈ h.large.bodies) (mapBegin_le : l.mapBegin ≤ addr)
      (lt_past : addr < l.past) : Holds h addr l.block

/-- The block of the slot right below the one that holds the address. -/
inductive Below (h : Heap) (addr : Nat) : Block → Prop where
  | slot {classId n : Nat} (carved : h.Carved ⟨classId, n + 1⟩)
      (mem : addr ∈ (h.slotBlock ⟨classId, n + 1⟩).extent) : Below h addr (h.slotBlock ⟨classId, n⟩)

/-- The chunk that the address is nearest to; the one of its block if the one below is just as near.
    Recycled chunks do not count. -/
inductive Nearest (h : Heap) (addr : Nat) : Option Chunk → Prop where
  | nobody (recycled : ∀ b, h.Holds addr b ∨ h.Below addr b → b.record.state = .recycled) :
      Nearest h addr none
  | holder {b : Block} (holds : h.Holds addr b) (live : b.record.state ≠ .recycled)
      (least : ∀ d, h.Below addr d → d.record.state ≠ .recycled → b.distance addr ≤ d.distance addr) :
      Nearest h addr (some b.chunk)
  | below {d : Block} (below : h.Below addr d) (live : d.record.state ≠ .recycled)
      (least : ∀ b, h.Holds addr b → b.record.state ≠ .recycled → d.distance addr < b.distance addr) :
      Nearest h addr (some d.chunk)

variable {h : Heap} {b b' d d' : Block} {addr p : Nat}

/-! ## Blocks that hold an address -/

theorem Carved.of_le {classId n m : Nat} (hcarved : h.Carved ⟨classId, n⟩) (hle : m ≤ n) :
    h.Carved ⟨classId, m⟩ := by
  obtain ⟨r, hr, hroom⟩ := hcarved
  exact ⟨r, hr, Nat.le_trans (Nat.mul_le_mul_right _ (Nat.succ_le_succ hle)) hroom⟩

theorem Holds.mem_blocks (hb : h.Holds addr b) : b ∈ h.blocks := by
  cases hb with
  | slot carved => exact .inl ⟨_, carved, rfl⟩
  | mapping mem => exact .inr ⟨_, mem, rfl⟩

theorem Below.mem_blocks (hd : h.Below addr d) : d ∈ h.blocks := by
  cases hd with
  | slot carved => exact .inl ⟨_, carved.of_le (Nat.le_succ _), rfl⟩

/-- Where there is a block below, there is one above it. -/
theorem Below.holder (hd : h.Below addr d) :
    ∃ b, h.Holds addr b ∧ b.begin = d.past ∧ b.kind = d.kind := by
  cases hd with
  | @slot classId n carved mem =>
      refine ⟨_, .slot carved mem, ?_, rfl⟩
      show h.regionBegin classId + (n + 1) * h.classes.size classId =
        h.regionBegin classId + n * h.classes.size classId + h.classes.size classId
      rw [Nat.succ_mul, Nat.add_assoc]

/-- An address finds the block that holds it. -/
theorem WF.blockBegin?_holder (hwf : h.WF) (hb : h.Holds addr b) : h.blockBegin? addr = some b.begin := by
  cases hb with
  | slot carved mem => exact hwf.blockBegin?_eq (.inl ⟨_, carved, rfl⟩) mem
  | @mapping l mem hlo hhi =>
      have hmap : addr ∈ l.mapping := ⟨hlo, Nat.lt_of_lt_of_le hhi (hwf.large.placed l mem).past_le⟩
      obtain ⟨c, hfind, rfl⟩ := hwf.large.find?_eq mem hlo hhi
      unfold blockBegin?
      rw [if_neg (by rw [(hwf.mapping_bounds mem hmap).2.2]; decide), Large.blockBegin?, hfind]
      rfl

/-- What an address finds holds it. -/
theorem WF.holder_of_blockBegin? (hwf : h.WF) (hfind : h.blockBegin? addr = some p) :
    ∃ b, h.Holds addr b := by
  unfold blockBegin? at hfind
  by_cases hprimary : h.isPrimary addr = true
  · rw [if_pos hprimary] at hfind
    obtain ⟨s, hs, rfl⟩ := Option.map_eq_some_iff.mp hfind
    obtain ⟨hcarved, hmem, -⟩ := hwf.of_locate? hs
    exact ⟨_, .slot hcarved hmem⟩
  · rw [if_neg hprimary] at hfind
    obtain ⟨l, hl, rfl⟩ := Option.map_eq_some_iff.mp hfind
    obtain ⟨hmem, -, -, hlo, hhi⟩ := Large.WF.of_find? hl
    exact ⟨_, .mapping hmem hlo hhi⟩

/-- One block at most holds an address. -/
theorem WF.holder_unique (hwf : h.WF) (hb : h.Holds addr b) (hb' : h.Holds addr b') : b = b' := by
  have hbegin : b.begin = b'.begin :=
    Option.some.inj ((hwf.blockBegin?_holder hb).symm.trans (hwf.blockBegin?_holder hb'))
  have hmem := hb.mem_blocks
  have hmem' := hb'.mem_blocks
  refine hwf.tiled.eq_of_mem hmem hmem' (Block.begin_mem_extent (hwf.tiled.solid b hmem)) ?_
  rw [hbegin]
  exact Block.begin_mem_extent (hwf.tiled.solid b' hmem')

theorem WF.below_unique (hwf : h.WF) (hd : h.Below addr d) (hd' : h.Below addr d') : d = d' := by
  obtain ⟨b, hb, hpast, -⟩ := hd.holder
  obtain ⟨b', hb', hpast', -⟩ := hd'.holder
  obtain rfl := hwf.holder_unique hb hb'
  -- Both end where the block begins.
  have hin : ∀ e ∈ h.blocks, b.begin = e.past → b.begin - 1 ∈ e.extent := by
    intro e he hlast
    have hpos := hwf.tiled.solid e he
    have hend : e.past = e.begin + e.size := rfl
    refine ⟨?_, ?_⟩ <;> omega
  exact hwf.tiled.eq_of_mem hd.mem_blocks hd'.mem_blocks (hin d hd.mem_blocks hpast)
    (hin d' hd'.mem_blocks hpast')

/-- The class of an address is that of the block that holds it. -/
theorem WF.blockClass_holder (hwf : h.WF) (hb : h.Holds addr b) : h.blockClass addr = b.kind := by
  unfold blockClass
  cases hb with
  | slot carved mem =>
      obtain ⟨hprimary, hclass, -⟩ := hwf.locate?_eq carved mem
      rw [if_pos hprimary, hclass]
      rfl
  | @mapping l mem hlo hhi =>
      have hmap : addr ∈ l.mapping := ⟨hlo, Nat.lt_of_lt_of_le hhi (hwf.large.placed l mem).past_le⟩
      rw [if_neg (by rw [(hwf.mapping_bounds mem hmap).2.2]; decide)]
      rfl

/-- An address is nearest to one chunk at most. -/
theorem Nearest.unique (hwf : h.WF) {found other : Option Chunk} (hfound : h.Nearest addr found)
    (hother : h.Nearest addr other) : found = other := by
  cases hfound with
  | nobody hnone =>
      cases hother with
      | nobody => rfl
      | holder hb hlive => exact absurd (hnone _ (.inl hb)) hlive
      | below hd hlive => exact absurd (hnone _ (.inr hd)) hlive
  | holder hb hlive hleast =>
      cases hother with
      | nobody hnone => exact absurd (hnone _ (.inl hb)) hlive
      | holder hb' => rw [hwf.holder_unique hb hb']
      | below hd hlive' hleast' => exact absurd (hleast' _ hb hlive) (Nat.not_lt.mpr (hleast _ hd hlive'))
  | below hd hlive hleast =>
      cases hother with
      | nobody hnone => exact absurd (hnone _ (.inr hd)) hlive
      | holder hb hlive' hleast' => exact absurd (hleast _ hb hlive') (Nat.not_lt.mpr (hleast' _ hd hlive))
      | below hd' => rw [hwf.below_unique hd hd']

/-- The chunk that an address is nearest to is not recycled, and lies in the address's region. -/
theorem Nearest.kind_eq (hwf : h.WF) {c : Chunk} (hfound : h.Nearest addr (some c)) :
    c.record.state ≠ .recycled ∧ c.kind = h.blockClass addr := by
  cases hfound with
  | holder hb hlive => exact ⟨hlive, (hwf.blockClass_holder hb).symm⟩
  | below hd hlive =>
      obtain ⟨b, hb, -, hkind⟩ := hd.holder
      exact ⟨hlive, hkind.symm.trans (hwf.blockClass_holder hb).symm⟩

/-! ## The block below -/

/-- The blocks of a region end before its records begin. -/
theorem WF.allocatedUser_lt (hwf : h.WF) {classId : Nat} {r : Region}
    (hr : h.regions[classId]? = some r) : r.allocatedUser < h.regionSize := by
  have hregion := hwf.region _ r hr
  obtain ⟨n, huser, hmeta, -⟩ := hregion.user
  have hroom := hregion.room
  have hle := Word.le_roundUp (n := r.allocatedUser) (m := Pages.pageSize)
  have hle' := Word.le_roundUp (n := r.allocatedMeta) (m := Pages.pageSize)
  by_cases hnone : n = 0
  · rw [huser, hnone, Nat.zero_mul]
    exact hwf.layout.region_pos
  · have hpos : 0 < r.allocatedMeta := hmeta ▸ Nat.mul_pos (Nat.pos_of_ne_zero hnone) (by decide)
    omega

/-- No block holds the last byte in front of a region. -/
theorem WF.chunk?_lowest (hwf : h.WF) {classId : Nat} (hc : classId < h.regions.size) :
    h.chunk? (h.regionBegin classId - 1) = none := by
  have hnone : h.blockBegin? (h.regionBegin classId - 1) = none := by
    by_contra hsome
    obtain ⟨p, hfind⟩ := Option.ne_none_iff_exists'.mp hsome
    have hpos := hwf.layout.begin_pos
    have hbegin := begin_le_regionBegin (h := h) (c := classId)
    have hend := region_le_primaryEnd hc
    have hregion := hwf.layout.region_pos
    obtain ⟨b, hb⟩ := hwf.holder_of_blockBegin? hfind
    cases hb with
    | @mapping l mem hlo hhi =>
        have hplaced := (hwf.large.placed l mem).lo_le
        rw [hwf.layout.large_begin] at hplaced
        omega
    | @slot s carved mem =>
        obtain ⟨r, hr, hroom⟩ := carved
        have hlt := hwf.allocatedUser_lt hr
        obtain ⟨hfirst, hlast⟩ := slot_bounds (h := h) hroom
        obtain ⟨hlo, hhi⟩ : h.slotBegin s ≤ h.regionBegin classId - 1
          ∧ h.regionBegin classId - 1 < h.slotBegin s + h.classes.size s.classId := mem
        -- The region of the slot begins before this one, so it ends at or before its begin.
        have hbefore : s.classId < classId := by
          by_contra hle
          have := Nat.mul_le_mul_right h.regionSize (Nat.not_lt.mp hle)
          unfold regionBegin at *
          omega
        have := Nat.mul_le_mul_right h.regionSize (Nat.succ_le_of_lt hbefore)
        rw [Nat.succ_mul] at this
        unfold regionBegin at *
        omega
  unfold chunk?
  rw [hnone]
  rfl

/-- The chunk of the block below is found at its last byte. -/
theorem WF.chunk?_below (hwf : h.WF) (hd : h.Below addr d) : h.chunk? (d.past - 1) = some d.chunk := by
  have hpos := hwf.tiled.solid d hd.mem_blocks
  have hend : d.past = d.begin + d.size := rfl
  refine Redzone.chunk?_eq hwf hd.mem_blocks ⟨?_, ?_⟩ <;> omega

theorem Below.past_le (hd : h.Below addr d) : d.past ≤ addr := by
  cases hd with
  | @slot classId n carved mem =>
      obtain ⟨hlo, -⟩ : h.regionBegin classId + (n + 1) * h.classes.size classId ≤ addr ∧ _ := mem
      show h.regionBegin classId + n * h.classes.size classId + h.classes.size classId ≤ addr
      rwa [Nat.succ_mul, ← Nat.add_assoc] at hlo

/-- The chunk below is found from the block that holds the address, unless it is recycled. -/
theorem WF.previousChunk_below (hwf : h.WF) (hfits : d.Fits) (hd : h.Below addr d)
    (hlive : d.record.state ≠ .recycled) : h.previousChunk d.past addr = .ok (some d.chunk) := by
  obtain ⟨b, hb, hbegin, hkind⟩ := hd.holder
  have hclass := (hwf.begin_spec hb.mem_blocks).1
  have hpos := hwf.tiled.solid d hd.mem_blocks
  have hlast : d.past = d.begin + d.size := rfl
  have hsmall : ∃ c, h.blockClass d.past = .small c := by
    rw [← hbegin, hclass, hkind]
    cases hd with
    | @slot classId n carved mem => exact ⟨classId, rfl⟩
  obtain ⟨c, hsmall⟩ := hsmall
  have hcheck : (d.chunk.isLive && decide (d.chunk.block ≠ d.past)) = true := by
    rw [isLive_chunk.mpr hlive, Bool.true_and, decide_eq_true_eq]
    show d.begin ≠ d.past
    omega
  have hend : d.record.userBegin + d.record.requestedSize ≤ addr :=
    Nat.le_of_lt (Nat.lt_of_lt_of_le hfits.lt_past hd.past_le)
  unfold previousChunk
  rw [hsmall]
  dsimp only
  rw [if_neg (by omega), hwf.chunk?_below hd]
  dsimp only
  rw [if_pos hcheck, hfits.userEnd_eq hwf hd.mem_blocks]
  exact congrArg Except.ok (if_pos hend)

/-- Without such a chunk none is found. -/
theorem WF.previousChunk_eq_none (hwf : h.WF) (hb : h.Holds addr b)
    (hnone : ∀ d, h.Below addr d → d.record.state = .recycled) :
    h.previousChunk b.begin addr = .ok none := by
  unfold previousChunk
  rw [(hwf.begin_spec hb.mem_blocks).1]
  cases hb with
  | mapping => rfl
  | @slot s carved mem =>
      rw [show (h.slotBlock s).kind = .small s.classId from rfl]
      dsimp only
      by_cases hzero : (h.slotBlock s).begin = 0
      · rw [if_pos hzero]
      rw [if_neg hzero]
      obtain ⟨classId, n⟩ := s
      cases n with
      | zero =>
          obtain ⟨r, hr, -⟩ := carved
          have hfirst : (h.slotBlock ⟨classId, 0⟩).begin = h.regionBegin classId := by
            show h.regionBegin classId + 0 * _ = _
            rw [Nat.zero_mul, Nat.add_zero]
          rw [hfirst, hwf.chunk?_lowest (lt_size_of_region hr)]
      | succ n =>
          have hd : h.Below addr (h.slotBlock ⟨classId, n⟩) := .slot carved mem
          obtain ⟨b, hb, hbegin, -⟩ := hd.holder
          obtain rfl := hwf.holder_unique hb (.slot carved mem)
          have hrecycled : (h.slotBlock ⟨classId, n⟩).chunk.isLive = false :=
            Bool.eq_false_iff.mpr fun hlive => isLive_chunk.mp hlive (hnone _ hd)
          rw [hbegin, hwf.chunk?_below hd]
          dsimp only
          rw [hrecycled]
          rfl

/-- What is found below the block that holds an address. -/
theorem WF.previousChunk_cases (hwf : h.WF)
    (hfits : ∀ b ∈ h.blocks, b.record.state ≠ .recycled → b.Fits) (hb : h.Holds addr b) :
    (∃ d, h.Below addr d ∧ d.record.state ≠ .recycled ∧ d.Fits
        ∧ h.previousChunk b.begin addr = .ok (some d.chunk))
      ∨ (∀ d, h.Below addr d → d.record.state = .recycled)
        ∧ h.previousChunk b.begin addr = .ok none := by
  by_cases hnone : ∀ d, h.Below addr d → d.record.state = .recycled
  · exact .inr ⟨hnone, hwf.previousChunk_eq_none hb hnone⟩
  · push Not at hnone
    obtain ⟨d, hd, hlive⟩ := hnone
    obtain ⟨b', hb', hbegin, -⟩ := hd.holder
    obtain rfl := hwf.holder_unique hb hb'
    have hfit := hfits d hd.mem_blocks hlive
    exact .inl ⟨d, hd, hlive, hfit, hbegin ▸ hwf.previousChunk_below hfit hd hlive⟩

/-! ## The chunk that is found -/

/-- Behind the chunk below, the distance to it is that to its end. -/
theorem Below.distance_eq (hd : h.Below addr d) (hfits : d.Fits) :
    d.distance addr = addr - (d.record.userBegin + d.record.requestedSize) := by
  have hend := hd.past_le
  have hlast := hfits.lt_past
  unfold Block.distance
  omega

/-- Where no block holds the address none is below it either, and nothing is found. -/
theorem WF.nearest_nobody (hwf : h.WF) (hblock : h.blockBegin? addr = none) :
    h.findChunk addr = .ok none ∧ h.Nearest addr none := by
  have hnobody : ∀ b, ¬ h.Holds addr b := by
    intro b hb
    rw [hwf.blockBegin?_holder hb] at hblock
    exact nomatch hblock
  have hchunk : h.chunk? addr = none := by
    unfold chunk?
    rw [hblock]
    rfl
  refine ⟨?_, .nobody fun b hb => ?_⟩
  · unfold findChunk
    rw [hchunk, hblock]
    rfl
  · rcases hb with hb | hd
    · exact absurd hb (hnobody b)
    · obtain ⟨b, hb, -⟩ := hd.holder
      exact absurd hb (hnobody b)

section Holder

variable (hwf : h.WF) (hfits : ∀ b ∈ h.blocks, b.record.state ≠ .recycled → b.Fits) (hb : h.Holds addr b)

include hwf hfits hb

/-- In a recycled block only the chunk below is meant. -/
theorem WF.nearest_of_recycled (hrecycled : b.record.state = .recycled) :
    ∃ found, h.findChunk addr = .ok found ∧ h.Nearest addr found := by
  have hother : ∀ c, h.Holds addr c → c.record.state = .recycled := by
    intro c hc
    rwa [← hwf.holder_unique hb hc]
  have hblock := hwf.blockBegin?_holder hb
  have hlive : b.chunk.isLive = false := Bool.eq_false_iff.mpr fun h => isLive_chunk.mp h hrecycled
  unfold findChunk
  dsimp only
  rw [Redzone.chunk?_of_begin hwf hb.mem_blocks hblock, Option.filter_some_neg hlive, hblock]
  dsimp only
  rcases hwf.previousChunk_cases hfits hb with ⟨d, hd, hlive', -, hprev⟩ | ⟨hnone, hprev⟩
  · rw [hprev]
    exact ⟨_, rfl, .below hd hlive' fun c hc hc' => absurd (hother c hc) hc'⟩
  · rw [hprev]
    exact ⟨_, rfl, .nobody fun c hc => hc.elim (hother c) (hnone c)⟩

/-- From the user's first byte on the chunk of the block is meant: the one below ends in front of the
    block. -/
theorem WF.nearest_from_user (hlive : b.record.state ≠ .recycled) (huser : b.record.userBegin ≤ addr) :
    ∃ found, h.findChunk addr = .ok found ∧ h.Nearest addr found := by
  unfold findChunk
  dsimp only
  rw [Redzone.chunk?_of_begin hwf hb.mem_blocks (hwf.blockBegin?_holder hb),
    Option.filter_some_pos (isLive_chunk.mpr hlive)]
  dsimp only
  rw [if_pos (show addr ≥ b.chunk.record.userBegin from huser)]
  refine ⟨_, rfl, .holder hb hlive fun d hd hlive' => ?_⟩
  have hfit := hfits d hd.mem_blocks hlive'
  obtain ⟨c, hc, hbegin, -⟩ := hd.holder
  obtain rfl := hwf.holder_unique hb hc
  have hle := (hfits b hb.mem_blocks hlive).begin_le
  have hlast := hfit.lt_past
  rw [hd.distance_eq hfit]
  unfold Block.distance
  omega

/-- In front of the user's bytes the two distances are compared. -/
theorem WF.nearest_in_front (hlive : b.record.state ≠ .recycled) (huser : addr < b.record.userBegin) :
    ∃ found, h.findChunk addr = .ok found ∧ h.Nearest addr found := by
  have hblock := hwf.blockBegin?_holder hb
  have hdistance : b.distance addr = b.record.userBegin - addr := by
    unfold Block.distance
    omega
  unfold findChunk
  dsimp only
  rw [Redzone.chunk?_of_begin hwf hb.mem_blocks hblock, Option.filter_some_pos (isLive_chunk.mpr hlive), hblock]
  dsimp only
  rw [if_neg (show ¬ addr ≥ b.chunk.record.userBegin from Nat.not_le.mpr huser)]
  rcases hwf.previousChunk_cases hfits hb with ⟨d, hd, hlive', hfit, hprev⟩ | ⟨hnone, hprev⟩
  case inr =>
    rw [hprev]
    exact ⟨_, rfl, .holder hb hlive fun d hd hd' => absurd (hnone d hd) hd'⟩
  rw [hprev]
  show ∃ found, (d.chunk.userEnd >>= fun past => pure
    (some (if addr - past < b.record.userBegin - addr then d.chunk else b.chunk))) = .ok found ∧ _
  rw [hfit.userEnd_eq hwf hd.mem_blocks]
  refine ⟨_, rfl, ?_⟩
  by_cases hnear : addr - (d.record.userBegin + d.record.requestedSize) < b.record.userBegin - addr
  · rw [if_pos hnear]
    refine .below hd hlive' fun c hc _ => ?_
    obtain rfl := hwf.holder_unique hb hc
    rwa [hd.distance_eq hfit, hdistance]
  · rw [if_neg hnear]
    refine .holder hb hlive fun c hc _ => ?_
    obtain rfl := hwf.below_unique hd hc
    rw [hd.distance_eq hfit, hdistance]
    exact Nat.not_lt.mp hnear

end Holder

/-- What is found is what the address is nearest to. -/
theorem WF.nearest_findChunk (hwf : h.WF) (hfits : ∀ b ∈ h.blocks, b.record.state ≠ .recycled → b.Fits)
    (addr : Nat) : ∃ found, h.findChunk addr = .ok found ∧ h.Nearest addr found := by
  cases hblock : h.blockBegin? addr with
  | none => exact ⟨none, hwf.nearest_nobody hblock⟩
  | some p =>
      obtain ⟨b, hb⟩ := hwf.holder_of_blockBegin? hblock
      by_cases hlive : b.record.state = .recycled
      · exact hwf.nearest_of_recycled hfits hb hlive
      by_cases huser : b.record.userBegin ≤ addr
      · exact hwf.nearest_from_user hfits hb hlive huser
      · exact hwf.nearest_in_front hfits hb hlive (Nat.not_le.mp huser)

end Heap

namespace Run

variable {failing marked : Prop} {past : List Occurrence} {s : Sanitizer}

/-- For every address of a run there is one chunk that it is nearest to, or none, and this is what is
    found; the chunk is not recycled, and is of the address's region. -/
theorem findChunk_nearest (h : Run failing marked past s) (addr : Nat) :
    ∃ found, s.heap.findChunk addr = .ok found
      ∧ (∀ other, s.heap.Nearest addr other ↔ other = found)
      ∧ ∀ c, found = some c → c.record.state ≠ .recycled ∧ c.kind = s.heap.blockClass addr := by
  obtain ⟨found, hfind, hnearest⟩ := h.fit.heap.nearest_findChunk h.sound.fits addr
  refine ⟨found, hfind, fun other => ⟨fun hother => hother.unique h.fit.heap hnearest, ?_⟩, ?_⟩
  · rintro rfl
    exact hnearest
  · rintro c rfl
    exact hnearest.kind_eq h.fit.heap

/-- Two chunks in blocks next to each other, the upper one far behind the begin of its block: where that
    begins an address is nearer to the lower chunk, and half way between their bytes the upper one is
    meant. -/
theorem findChunk_nearest_between :
    ∃ past s lower upper, Run False False past s ∧ s.heap.userChunk? 17725330030720 = some lower
      ∧ s.heap.userChunk? 17725330031360 = some upper
      ∧ s.heap.Nearest 17725330031104 (some lower) ∧ s.heap.Nearest 17725330031168 (some upper) := by
  obtain ⟨past, s, hrun, hcheck⟩ := of_plays False False
    (show Request.plays {} .counter {}
      [.call .register, .call (.allocate 0 256 8 .malloc 0), .call (.allocate 0 1 256 .malloc 0)]
      (fun _ s => (s.heap.userChunk? 17725330030720).any fun lower =>
        (s.heap.userChunk? 17725330031360).any fun upper =>
          decide (s.heap.findChunk 17725330031104 = .ok (some lower)
            ∧ s.heap.findChunk 17725330031168 = .ok (some upper))) = true by decide +kernel)
    (by simp [Request.Fits, Operation.Marks])
  obtain ⟨lower, hlower, hcheck⟩ := (Option.any_eq_true _ _).mp hcheck
  obtain ⟨upper, hupper, hcheck⟩ := (Option.any_eq_true _ _).mp hcheck
  obtain ⟨hbegin, hmiddle⟩ := of_decide_eq_true hcheck
  obtain ⟨found, hfind, hnearest, -⟩ := findChunk_nearest hrun 17725330031104
  obtain ⟨found', hfind', hnearest', -⟩ := findChunk_nearest hrun 17725330031168
  refine ⟨past, s, lower, upper, hrun, hlower, hupper, (hnearest _).mpr ?_, (hnearest' _).mpr ?_⟩
  · exact Except.ok.inj (hbegin.symm.trans hfind)
  · exact Except.ok.inj (hmiddle.symm.trans hfind')

end Run

end GuardedHeap
