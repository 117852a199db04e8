import GuardedHeap.Proofs.Heap.Outline
import GuardedHeap.Proofs.Heap.Regions

/-! # Memory — users and tables in one address space

    The records of slots lie in the regions, and the headers of large
    blocks, with their links and records, lie in the mappings: between the
    bytes that users have.  `Heap.memory` is what the address space holds,
    the tables written over the contents, wherever `slotRecordAddr` and
    `header` say they lie.  In a well-formed heap they lie in committed
    bytes that belong to no block (`WF.disjoint_metadata`), so a block has
    its contents (`WF.memory_of_mem`), and a change of a record is a write
    to the 48 bytes of that record (`WF.memory_setRecord`). -/

namespace GuardedHeap

/-! ## The bytes of the tables -/

/-- The `n` lowest bytes of a number, the lowest first. -/
def littleEndian (n value : Nat) : List UInt8 :=
  (List.range n).map fun i => UInt8.ofNat (value / Nat.pow 256 i)

/-- The byte that stands for a state. -/
def ChunkState.code : ChunkState → Nat
  | recycled => 0
  | allocated => 1
  | quarantined => 2

/-- The byte that stands for a family of calls. -/
def Api.code : Api → Nat
  | malloc => 1
  | new => 2
  | newArray => 3

/-- The bytes of a record.  One that was never written is all zero. -/
def ChunkRecord.bytes (r : ChunkRecord) : List UInt8 :=
  if r = {} then List.replicate Heap.recordSize 0
  else
    littleEndian 1 r.state.code ++ littleEndian 1 r.api.code ++ littleEndian 2 0
      ++ littleEndian 4 r.allocated.stack ++ littleEndian 4 r.freed.stack
      ++ littleEndian 4 r.allocated.tid ++ littleEndian 4 r.freed.tid ++ littleEndian 4 0
      ++ littleEndian 8 r.userBegin ++ littleEndian 8 r.requestedSize ++ littleEndian 8 r.actualSize

/-- Bytes that are kept at an address. -/
structure Store where
  addr : Nat
  bytes : List UInt8

namespace Store

/-- The addresses of the bytes. -/
def extent (x : Store) : Set Nat :=
  Set.Ico x.addr (x.addr + x.bytes.length)

/-- The byte at an address of the extent. -/
def byte (x : Store) (a : Nat) : UInt8 :=
  x.bytes.getD (a - x.addr) 0

/-- The bytes are written over the others. -/
def onto (x : Store) (old : Nat → UInt8) : Nat → UInt8 :=
  overlay x.addr x.bytes.length x.byte old

end Store

/-- The header of a large block: its place, its size and its links. -/
def LargeBlock.fields (b : LargeBlock) : List Store :=
  [⟨b.header, littleEndian 8 b.mapBegin⟩, ⟨b.header + 8, littleEndian 8 b.mapSize⟩,
    ⟨b.header + 16, littleEndian 8 b.size⟩, ⟨b.header + 24, littleEndian 8 b.prev⟩,
    ⟨b.header + 32, littleEndian 8 b.next⟩]

/-- What a large block keeps in its header page: the record first, and the header. -/
def LargeBlock.stores (b : LargeBlock) : List Store :=
  ⟨Large.recordAddr b.user, b.record.bytes⟩ :: b.fields

namespace Heap

/-- The slots with a record. -/
def slots (h : Heap) : List Slot :=
  (List.range h.regions.size).flatMap fun c =>
    match h.regions[c]? with
    | some r => (List.range (r.allocatedMeta / recordSize)).map (Slot.mk c)
    | none => []

/-- The record of a slot in memory. -/
def slotStore (h : Heap) (s : Slot) : Store :=
  ⟨h.slotRecordAddr s, (h.slotRecord s).bytes⟩

/-- What the tables of a heap keep in memory. -/
def stores (h : Heap) : List Store :=
  h.slots.map h.slotStore ++ h.large.blocks.flatMap LargeBlock.stores

/-- The byte at each address: what the tables keep there, and the contents elsewhere. -/
def memory (h : Heap) : Nat → UInt8 :=
  h.stores.foldr Store.onto h.contents

/-- The addresses of the records of slots and of the header pages of large blocks. -/
def metadata (h : Heap) : Set Nat :=
  {a | (∃ s, h.Carved s ∧ a ∈ h.recordExtent s) ∨ ∃ b ∈ h.large.blocks, a ∈ Set.Ico b.header b.user}

end Heap

@[simp] theorem length_littleEndian (n value : Nat) : (littleEndian n value).length = n := by
  simp [littleEndian]

/-- A record has 48 bytes. -/
theorem ChunkRecord.length_bytes (r : ChunkRecord) : r.bytes.length = Heap.recordSize := by
  unfold bytes
  split <;> simp [Heap.recordSize]

/-! ## Stores over contents -/

section Stores

variable {xs : List Store} {x : Store} {old : Nat → UInt8} {a : Nat}

theorem Store.onto_of_mem (ha : a ∈ x.extent) : x.onto old a = x.byte a :=
  if_pos ha

theorem Store.onto_of_notMem (ha : a ∉ x.extent) : x.onto old a = old a :=
  if_neg ha

/-- No two different ones of the stores have an address in common. -/
def Store.Apart (xs : List Store) : Prop :=
  ∀ x ∈ xs, ∀ y ∈ xs, ∀ a ∈ x.extent, a ∈ y.extent → x = y

/-- Stores that lie one behind the other are apart. -/
theorem Store.apart_of_pairwise (h : xs.Pairwise fun x y => x.addr + x.bytes.length ≤ y.addr) :
    Store.Apart xs := by
  induction h with
  | nil => exact fun x hx => nomatch hx
  | cons hfirst _ ih =>
      rintro x hx y hy a ⟨hlo, hhi⟩ ⟨hlo', hhi'⟩
      rcases List.mem_cons.mp hx with rfl | hxs <;> rcases List.mem_cons.mp hy with rfl | hys
      · rfl
      · have := hfirst y hys
        omega
      · have := hfirst x hxs
        omega
      · exact ih x hxs y hys a ⟨hlo, hhi⟩ ⟨hlo', hhi'⟩

/-- Where nothing is stored the old bytes are. -/
theorem foldr_onto_of_notMem (hout : ∀ x ∈ xs, a ∉ x.extent) : xs.foldr Store.onto old a = old a := by
  induction xs with
  | nil => rfl
  | cons y ys ih =>
      rw [List.foldr_cons, Store.onto_of_notMem (hout y List.mem_cons_self)]
      exact ih fun x hx => hout x (List.mem_cons_of_mem _ hx)

/-- Where stores are apart each has its bytes. -/
theorem foldr_onto_of_mem (hapart : Store.Apart xs) (hx : x ∈ xs) (ha : a ∈ x.extent) :
    xs.foldr Store.onto old a = x.byte a := by
  induction xs with
  | nil => exact nomatch hx
  | cons y ys ih =>
      rw [List.foldr_cons]
      by_cases hy : a ∈ y.extent
      · rw [Store.onto_of_mem hy, hapart x hx y List.mem_cons_self a ha hy]
      · rw [Store.onto_of_notMem hy]
        rcases List.mem_cons.mp hx with rfl | hx
        · exact absurd ha hy
        · exact ih (fun u hu v hv => hapart u (List.mem_cons_of_mem _ hu) v (List.mem_cons_of_mem _ hv)) hx

/-- One of the stores is written anew, if the others stay and nothing is stored elsewhere. -/
theorem foldr_onto_replace {ys : List Store} {y : Store} (hxs : Store.Apart xs) (hys : Store.Apart ys)
    (hy : y ∈ ys) (hnew : ∀ z ∈ ys, z = y ∨ z ∈ xs) (hold : ∀ z ∈ xs, z ∈ ys ∨ z.extent = y.extent) :
    ys.foldr Store.onto old = y.onto (xs.foldr Store.onto old) := by
  funext a
  by_cases hay : a ∈ y.extent
  · rw [Store.onto_of_mem hay, foldr_onto_of_mem hys hy hay]
  rw [Store.onto_of_notMem hay]
  by_cases hin : ∃ z ∈ ys, a ∈ z.extent
  · obtain ⟨z, hz, haz⟩ := hin
    rcases hnew z hz with rfl | hzx
    · exact absurd haz hay
    · rw [foldr_onto_of_mem hys hz haz, foldr_onto_of_mem hxs hzx haz]
  · rw [foldr_onto_of_notMem fun z hz haz => hin ⟨z, hz, haz⟩, foldr_onto_of_notMem fun z hz haz => ?_]
    rcases hold z hz with hzy | hextent
    · exact hin ⟨z, hzy, haz⟩
    · exact hay (hextent ▸ haz)

end Stores

namespace Heap

variable {h : Heap} {b : Block} {s : Slot} {l : LargeBlock} {x : Store} {a : Nat}

/-! ## Where the tables lie -/

/-- The slots with a record are those that were carved. -/
theorem Tracts.mem_slots (ht : h.Tracts) : s ∈ h.slots ↔ h.Carved s := by
  have hrecord : 0 < recordSize := by decide
  unfold slots
  rw [List.mem_flatMap]
  constructor
  · rintro ⟨c, -, hs⟩
    cases hr : h.regions[c]? with
    | none =>
        rw [hr] at hs
        exact nomatch hs
    | some r =>
        rw [hr] at hs
        obtain ⟨i, hi, rfl⟩ := List.mem_map.mp hs
        obtain ⟨n, hn, hm, -⟩ := (ht.region c r hr).user
        rw [List.mem_range, hm, Nat.mul_div_cancel n hrecord] at hi
        exact (ht.carved_iff hr hn i).mpr hi
  · intro hs
    obtain ⟨c, i⟩ := s
    obtain ⟨r, hr, -⟩ := id hs
    obtain ⟨n, hn, hm, -⟩ := (ht.region c r hr).user
    refine ⟨c, List.mem_range.mpr (lt_size_of_region hr), ?_⟩
    change h.regions[c]? = some r at hr
    rw [hr]
    refine List.mem_map.mpr ⟨i, List.mem_range.mpr ?_, rfl⟩
    rw [hm, Nat.mul_div_cancel n hrecord]
    exact (ht.carved_iff hr hn i).mp hs

/-- The record of a slot lies in its extent. -/
theorem extent_slotStore : (h.slotStore s).extent = h.recordExtent s := by
  unfold Store.extent
  rw [show (h.slotStore s).bytes.length = recordSize from ChunkRecord.length_bytes _]
  rfl

/-- What is stored are the records of carved slots and the header pages. -/
theorem Tracts.mem_stores (ht : h.Tracts) :
    x ∈ h.stores ↔ (∃ s, h.Carved s ∧ x = h.slotStore s) ∨ ∃ l ∈ h.large.blocks, x ∈ l.stores := by
  unfold stores
  rw [List.mem_append, List.mem_map, List.mem_flatMap]
  exact or_congr (exists_congr fun s => and_congr ht.mem_slots eq_comm) Iff.rfl

/-- The header page of a large block lies in its mapping. -/
theorem WF.header_bounds (hwf : h.WF) (hl : l ∈ h.large.blocks) :
    l.mapBegin ≤ l.header ∧ l.header + Pages.pageSize = l.user ∧ l.user < l.mapBegin + l.mapSize := by
  have hplaced := hwf.large.placed l.body (List.mem_map_of_mem hl)
  have hheader : l.mapBegin + Pages.pageSize ≤ l.user := hplaced.header_le
  have hlt : l.user < l.past := hplaced.lt_past
  have hpast : l.past ≤ l.mapBegin + l.mapSize := hplaced.past_le
  unfold LargeBlock.header
  omega

/-- What a large block keeps lies in its header page, each part behind the one before. -/
theorem WF.extent_header (hwf : h.WF) (hl : l ∈ h.large.blocks) (hx : x ∈ l.stores) :
    x.extent ⊆ Set.Ico l.header l.user := by
  have hheader : l.header + 4096 = l.user := (hwf.header_bounds hl).2.1
  have hrecord : l.record.bytes.length = 48 := ChunkRecord.length_bytes _
  have haddr : Large.recordAddr l.user = l.header + 64 := rfl
  rintro a ⟨hlo, hhi⟩
  simp only [LargeBlock.stores, LargeBlock.fields, List.mem_cons, List.not_mem_nil, or_false] at hx
  -- The record, which lies behind the header, ends before the page does.
  rcases hx with rfl | rfl | rfl | rfl | rfl | rfl <;>
    simp only [length_littleEndian, hrecord, haddr] at hlo hhi <;>
    exact ⟨by omega, by omega⟩

/-- What is stored lies where the tables do. -/
theorem WF.mem_metadata_of_store (hwf : h.WF) (hx : x ∈ h.stores) (ha : a ∈ x.extent) : a ∈ h.metadata := by
  rcases hwf.tracts.mem_stores.mp hx with ⟨s, hs, rfl⟩ | ⟨l, hl, hx⟩
  · exact .inl ⟨s, hs, extent_slotStore ▸ ha⟩
  · exact .inr ⟨l, hl, hwf.extent_header hl hx ha⟩

/-- The header pages lie in the mappings, and so behind the regions. -/
theorem WF.mapping_of_header (hwf : h.WF) (hl : l ∈ h.large.blocks) (ha : a ∈ Set.Ico l.header l.user) :
    a ∈ l.mapping ∧ a ∉ l.block.extent ∧ h.primaryEnd ≤ a := by
  obtain ⟨hlo, -, hhi⟩ := hwf.header_bounds hl
  have hin : a ∈ l.mapping := ⟨Nat.le_trans hlo ha.1, Nat.lt_trans ha.2 hhi⟩
  exact ⟨hin, fun hblock => Nat.not_le_of_lt ha.2 hblock.1,
    (hwf.mapping_bounds (List.mem_map_of_mem (f := LargeBlock.body) hl) hin).1⟩

/-- Slots and their records lie before the secondary range. -/
theorem Tracts.lt_primaryEnd (ht : h.Tracts) (hs : h.Carved s)
    (ha : a ∈ (h.slotBlock s).extent ∪ h.recordExtent s) : a < h.primaryEnd := by
  obtain ⟨-, hhi, -⟩ := ht.place_of_carved hs ha
  obtain ⟨r, hr, -⟩ := hs
  exact Nat.lt_of_lt_of_le hhi (region_le_primaryEnd (lt_size_of_region hr))

/-- No block has an address where a table lies. -/
theorem WF.disjoint_metadata (hwf : h.WF) (hb : b ∈ h.blocks) : Disjoint b.extent h.metadata := by
  have ht := hwf.tracts
  refine Set.disjoint_left.mpr fun a hab ham => ?_
  rcases hb with ⟨s, hs, rfl⟩ | ⟨l, hl, rfl⟩ <;> rcases ham with ⟨s', hs', ha⟩ | ⟨m, hm, ha⟩
  · exact Set.disjoint_left.mp (ht.slot_record_disjoint hs hs') hab ha
  · exact Nat.not_lt_of_le (hwf.mapping_of_header hm ha).2.2 (ht.lt_primaryEnd hs (.inl hab))
  · have hmap := (hwf.large.placed l hl).extent_subset hab
    exact Nat.not_lt_of_le (hwf.mapping_bounds hl hmap).1 (ht.lt_primaryEnd hs' (.inr ha))
  · obtain ⟨hmap, hout, -⟩ := hwf.mapping_of_header hm ha
    obtain rfl := hwf.large.eq_of_mem hl (List.mem_map_of_mem (f := LargeBlock.body) hm)
      ((hwf.large.placed l hl).extent_subset hab) hmap
    exact hout hab

/-- The tables can be written. -/
theorem WF.writable_metadata (hwf : h.WF) (ha : a ∈ h.metadata) : h.pages.Writable a := by
  rcases ha with ⟨s, hs, ha⟩ | ⟨l, hl, ha⟩
  · exact (hwf.tracts.place_of_carved hs (.inr ha)).2.2
  · exact hwf.backed a (.inr ⟨l.body, List.mem_map_of_mem hl, (hwf.mapping_of_header hl ha).1⟩)

/-! ## What the memory holds -/

/-- Where no table lies, the memory holds the contents. -/
theorem WF.memory_of_notMem (hwf : h.WF) (ha : a ∉ h.metadata) : h.memory a = h.contents a :=
  foldr_onto_of_notMem fun _ hx hax => ha (hwf.mem_metadata_of_store hx hax)

/-- A block has its contents. -/
theorem WF.memory_of_mem (hwf : h.WF) (hb : b ∈ h.blocks) (ha : a ∈ b.extent) : h.memory a = h.contents a :=
  hwf.memory_of_notMem (Set.disjoint_left.mp (hwf.disjoint_metadata hb) ha)

/-! ## Tables are written in place -/

/-- An address of two mappings is one of a single block, links included. -/
theorem WF.eq_of_mapping (hwf : h.WF) {m : LargeBlock} (hl : l ∈ h.large.blocks) (hm : m ∈ h.large.blocks)
    (hal : a ∈ l.mapping) (ham : a ∈ m.mapping) : l = m := by
  have hnodup : (h.large.blocks.map (·.body.user)).Nodup := by
    have := hwf.large.users_nodup
    unfold Large.bodies at this
    rwa [List.map_map] at this
  refine List.inj_on_of_nodup_map hnodup hl hm ?_
  rw [hwf.large.eq_of_mem (List.mem_map_of_mem hl) (List.mem_map_of_mem hm) hal ham]

/-- The parts of one header page lie one behind the other, the record behind all of them. -/
theorem apart_header (l : LargeBlock) : Store.Apart l.stores := by
  have haddr : Large.recordAddr l.user = l.header + 64 := rfl
  have hfields : Store.Apart l.fields := Store.apart_of_pairwise (by simp [LargeBlock.fields])
  have hbefore : ∀ x ∈ l.fields, x.addr + x.bytes.length ≤ Large.recordAddr l.user := by
    simp [LargeBlock.fields, haddr]
  rintro x hx y hy a ⟨hlo, hhi⟩ ⟨hlo', hhi'⟩
  rcases List.mem_cons.mp hx with rfl | hx <;> rcases List.mem_cons.mp hy with rfl | hy
  · rfl
  · exact absurd hhi' (Nat.not_lt_of_le (Nat.le_trans (hbefore y hy) hlo))
  · exact absurd hhi (Nat.not_lt_of_le (Nat.le_trans (hbefore x hx) hlo'))
  · exact hfields x hx y hy a ⟨hlo, hhi⟩ ⟨hlo', hhi'⟩

/-- No two tables have an address in common. -/
theorem WF.apart_stores (hwf : h.WF) : Store.Apart h.stores := by
  have ht := hwf.tracts
  intro x hx y hy a hax hay
  rcases ht.mem_stores.mp hx with ⟨s, hs, rfl⟩ | ⟨l, hl, hxl⟩ <;>
    rcases ht.mem_stores.mp hy with ⟨s', hs', rfl⟩ | ⟨m, hm, hym⟩
  · rw [extent_slotStore] at hax hay
    by_contra hne
    exact Set.disjoint_left.mp (ht.records_disjoint hs hs' fun heq => hne (heq ▸ rfl)) hax hay
  · rw [extent_slotStore] at hax
    have hout := (hwf.mapping_of_header hm (hwf.extent_header hm hym hay)).2.2
    exact absurd (ht.lt_primaryEnd hs (.inr hax)) (Nat.not_lt_of_le hout)
  · rw [extent_slotStore] at hay
    have hout := (hwf.mapping_of_header hl (hwf.extent_header hl hxl hax)).2.2
    exact absurd (ht.lt_primaryEnd hs' (.inr hay)) (Nat.not_lt_of_le hout)
  · have hal := (hwf.mapping_of_header hl (hwf.extent_header hl hxl hax)).1
    have ham := (hwf.mapping_of_header hm (hwf.extent_header hm hym hay)).1
    obtain rfl := hwf.eq_of_mapping hl hm hal ham
    exact apart_header l x hxl y hym a hax hay

/-- The bytes of another record take the place of the old ones. -/
theorem extent_record (addr : Nat) (r r' : ChunkRecord) :
    (⟨addr, r.bytes⟩ : Store).extent = (⟨addr, r'.bytes⟩ : Store).extent := by
  unfold Store.extent
  rw [ChunkRecord.length_bytes, ChunkRecord.length_bytes]

/-- Another record for a slot leaves the slots, the large blocks and the contents as they are. -/
theorem same_setSlotRecord (hs : h.Carved s) (record : ChunkRecord) :
    (∀ s', (h.setSlotRecord s record).Carved s' ↔ h.Carved s')
      ∧ (h.setSlotRecord s record).large = h.large
      ∧ (h.setSlotRecord s record).contents = h.contents := by
  obtain ⟨r, hr, -⟩ := hs
  rw [setSlotRecord_eq hr]
  exact ⟨carved_setRegion hr rfl, rfl, rfl⟩

/-- It is stored where the old one was, and the others are stored as before. -/
theorem WF.slotStore_setSlotRecord (hwf : h.WF) {s' : Slot} (hs : h.Carved s) (hs' : h.Carved s')
    (record : ChunkRecord) : (h.setSlotRecord s record).slotStore s' =
      if s' = s then ⟨h.slotRecordAddr s, record.bytes⟩ else h.slotStore s' := by
  unfold slotStore
  rw [hwf.slotRecord_setSlotRecord hs hs']
  obtain ⟨r, hr, -⟩ := hs
  rw [setSlotRecord_eq hr]
  split
  case isTrue hsame =>
    rw [hsame]
    rfl
  case isFalse => rfl

/-- Another record for a slot is a write to where the record lies. -/
theorem WF.memory_setSlotRecord (hwf : h.WF) (hs : h.Carved s) (record : ChunkRecord) :
    (h.setSlotRecord s record).memory = Store.onto ⟨h.slotRecordAddr s, record.bytes⟩ h.memory := by
  have hwf' := (hwf.setSlotRecord hs record).wf
  obtain ⟨hcarved, hlarge, hcontents⟩ := same_setSlotRecord hs record
  unfold memory
  rw [hcontents]
  refine foldr_onto_replace hwf.apart_stores hwf'.apart_stores ?_ ?_ ?_
  · refine hwf'.tracts.mem_stores.mpr (.inl ⟨s, (hcarved s).mpr hs, ?_⟩)
    rw [hwf.slotStore_setSlotRecord hs hs, if_pos rfl]
  · intro z hz
    rcases hwf'.tracts.mem_stores.mp hz with ⟨s', hs', rfl⟩ | hz
    · rw [hwf.slotStore_setSlotRecord hs ((hcarved s').mp hs')]
      split
      · exact .inl rfl
      · exact .inr (hwf.tracts.mem_stores.mpr (.inl ⟨s', (hcarved s').mp hs', rfl⟩))
    · exact .inr (hwf.tracts.mem_stores.mpr (.inr (hlarge ▸ hz)))
  · intro z hz
    rcases hwf.tracts.mem_stores.mp hz with ⟨s', hs', rfl⟩ | hz
    · by_cases hsame : s' = s
      · rw [hsame]
        exact .inr (extent_record ..)
      · refine .inl (hwf'.tracts.mem_stores.mpr (.inl ⟨s', (hcarved s').mpr hs', ?_⟩))
        rw [hwf.slotStore_setSlotRecord hs hs', if_neg hsame]
    · exact .inl (hwf'.tracts.mem_stores.mpr (.inr (hlarge.symm ▸ hz)))

/-- A header says nothing of the record behind it. -/
theorem stores_setRecord (l m : LargeBlock) (record : ChunkRecord) :
    (if m.user = l.user then { m with record } else m).stores =
      ⟨Large.recordAddr m.user, if m.user = l.user then record.bytes else m.record.bytes⟩ :: m.fields := by
  split <;> rfl

/-- So is another record for a large block. -/
theorem WF.memory_setLargeRecord (hwf : h.WF) (hl : l ∈ h.large.blocks) (record : ChunkRecord) :
    ({ h with large := h.large.setRecord l.user record } : Heap).memory =
      Store.onto ⟨Large.recordAddr l.user, record.bytes⟩ h.memory := by
  have hwf' := (hwf.setLargeRecord (List.mem_map_of_mem hl) record).wf
  change ({ h with large := h.large.setRecord l.user record } : Heap).WF at hwf'
  refine foldr_onto_replace hwf.apart_stores hwf'.apart_stores ?_ ?_ ?_
  · refine hwf'.tracts.mem_stores.mpr (.inr ⟨{ l with record }, ?_, List.mem_cons_self⟩)
    exact List.mem_map.mpr ⟨l, hl, if_pos rfl⟩
  · intro z hz
    rcases hwf'.tracts.mem_stores.mp hz with ⟨s', hs', rfl⟩ | ⟨_, hm, hz⟩
    · exact .inr (hwf.tracts.mem_stores.mpr (.inl ⟨s', hs', rfl⟩))
    · obtain ⟨m, hin, rfl⟩ := List.mem_map.mp hm
      rw [stores_setRecord] at hz
      rcases List.mem_cons.mp hz with rfl | hz
      · split
        · rename_i huser
          exact .inl (huser ▸ rfl)
        · exact .inr (hwf.tracts.mem_stores.mpr (.inr ⟨m, hin, List.mem_cons_self⟩))
      · exact .inr (hwf.tracts.mem_stores.mpr (.inr ⟨m, hin, List.mem_cons_of_mem _ hz⟩))
  · intro z hz
    rcases hwf.tracts.mem_stores.mp hz with ⟨s', hs', rfl⟩ | ⟨m, hin, hz⟩
    · exact .inl (hwf'.tracts.mem_stores.mpr (.inl ⟨s', hs', rfl⟩))
    · have hstay : ∀ z, z ∈ (if m.user = l.user then { m with record } else m).stores →
          z ∈ ({ h with large := h.large.setRecord l.user record } : Heap).stores := fun z hz =>
        hwf'.tracts.mem_stores.mpr (.inr ⟨_, List.mem_map.mpr ⟨m, hin, rfl⟩, hz⟩)
      rw [stores_setRecord] at hstay
      rcases List.mem_cons.mp hz with rfl | hz
      · by_cases huser : m.user = l.user
        · rw [huser]
          exact .inr (extent_record ..)
        · rw [if_neg huser] at hstay
          exact .inl (hstay _ List.mem_cons_self)
      · exact .inl (hstay z (List.mem_cons_of_mem _ hz))

/-- Another record for a block is a write to its 48 bytes in memory, at the address where lookups find
    the record. -/
theorem WF.memory_setRecord (hwf : h.WF) (hb : b ∈ h.blocks) (record : ChunkRecord) :
    ∃ addr, h.recordAddr? b.begin = some addr
      ∧ (h.setRecord b.begin record).memory = Store.onto ⟨addr, record.bytes⟩ h.memory := by
  have hin := Block.begin_mem_extent (hwf.tiled.solid b hb)
  unfold Heap.setRecord recordAddr?
  rcases hb with ⟨s, hs, rfl⟩ | ⟨l, hl, rfl⟩
  · obtain ⟨hprimary, -, hlocate⟩ := hwf.locate?_eq hs hin
    rw [if_pos hprimary, hlocate]
    exact ⟨_, rfl, hwf.memory_setSlotRecord hs record⟩
  · have hmap := (hwf.large.placed l hl).extent_subset hin
    have hout : ¬ h.isPrimary l.block.begin = true := by
      rw [(hwf.mapping_bounds hl hmap).2.2]
      decide
    have hlocate : h.locate? l.block.begin = none := if_neg hout
    obtain ⟨c, hat, -⟩ := hwf.large.blockAt?_eq hl
    have hmine : h.large.isMine l.block.begin = true := by
      unfold Large.isMine
      rw [show h.large.blockAt? l.block.begin = some c from hat]
      rfl
    obtain ⟨m, hm, rfl⟩ := List.mem_map.mp hl
    rw [if_neg hout, hlocate]
    exact ⟨_, if_pos hmine, hwf.memory_setLargeRecord hm record⟩

end Heap

end GuardedHeap
