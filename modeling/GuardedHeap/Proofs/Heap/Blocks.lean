import GuardedHeap.Heap.LargeBlocks
import GuardedHeap.Proofs.Heap.Spans
import GuardedHeap.Proofs.Pages
import GuardedHeap.Proofs.Scene.Sound
import GuardedHeap.Proofs.Shadow
import GuardedHeap.Proofs.SizeClass

/-! # Heaps as blocks — what the tables of a heap say

    `Heap.blocks` reads the blocks of a heap off its two tables: the slots
    that were carved from the regions, and the large blocks in the list.
    In a well-formed heap (`Heap.WF`) they do not overlap, and the lookups
    by address answer what the blocks say: an address in a block finds
    this block and its record, and what is found is a block. -/

namespace GuardedHeap

/-! ## Large blocks -/

namespace LargeBlock

/-- The block without its links. -/
def body (b : LargeBlock) : LargeBlock :=
  { b with prev := 0, next := 0 }

/-- The block as it is seen from outside. -/
def block (b : LargeBlock) : Block where
  begin := b.user
  size := Word.roundUp b.size Pages.pageSize
  kind := .large
  record := b.record

/-- The addresses of the mapping. -/
def mapping (b : LargeBlock) : Set Nat :=
  Set.Ico b.mapBegin (b.mapBegin + b.mapSize)

/-- The mapping lies between two addresses, and has room for the header and the block. -/
structure Placed (lo hi : Nat) (b : LargeBlock) : Prop where
  mapBegin_dvd : Pages.pageSize ∣ b.mapBegin
  mapSize_dvd : Pages.pageSize ∣ b.mapSize
  user_dvd : Pages.pageSize ∣ b.user
  size_pos : 0 < b.size
  lo_le : lo ≤ b.mapBegin
  header_le : b.mapBegin + Pages.pageSize ≤ b.user
  past_le : b.past ≤ b.mapBegin + b.mapSize
  le_hi : b.mapBegin + b.mapSize ≤ hi

/-- A block of a placed mapping is not empty. -/
theorem Placed.lt_past {lo hi : Nat} {b : LargeBlock} (h : b.Placed lo hi) : b.user < b.past :=
  Nat.lt_add_of_pos_right (Nat.lt_of_lt_of_le h.size_pos Word.le_roundUp)

/-- The block lies in the mapping. -/
theorem Placed.extent_subset {lo hi : Nat} {b : LargeBlock} (h : b.Placed lo hi) :
    b.block.extent ⊆ b.mapping :=
  fun _ ha => ⟨Nat.le_trans (Nat.le_trans (Nat.le_add_right _ _) h.header_le) ha.1,
    Nat.lt_of_lt_of_le ha.2 h.past_le⟩

end LargeBlock

namespace Large

/-- The live blocks without their links. -/
def bodies (l : Large) : List LargeBlock :=
  l.blocks.map LargeBlock.body

/-- The live blocks have mappings of their own, in spans that are not free. -/
structure WF (l : Large) : Prop where
  spans : l.spans.WF l.begin
  spans_past : l.spans.past = l.past
  placed : ∀ b ∈ l.bodies, b.Placed l.begin l.past
  apart : l.bodies.Pairwise fun b c => Disjoint b.mapping c.mapping
  taken : ∀ b ∈ l.bodies, ∀ a ∈ b.mapping, ¬ l.spans.Free a

namespace WF

variable {l : Large} {b c : LargeBlock}

/-- Mappings of different blocks have no address in common. -/
theorem eq_of_mem (h : l.WF) (hb : b ∈ l.bodies) (hc : c ∈ l.bodies) {a : Nat}
    (hab : a ∈ b.mapping) (hac : a ∈ c.mapping) : b = c := by
  by_contra hne
  have hsymm : Std.Symm fun b c : LargeBlock => Disjoint b.mapping c.mapping :=
    ⟨fun _ _ hd => hd.symm⟩
  exact Set.disjoint_left.mp (h.apart.forall hb hc hne) hab hac

/-- What lies in the pages of a block or before them in its mapping finds the block. -/
theorem find?_eq (h : l.WF) (hb : b ∈ l.bodies) {p : Nat} (hlo : b.mapBegin ≤ p)
    (hhi : p < b.past) : ∃ c, l.find? p = some c ∧ c.body = b := by
  have hplaced := h.placed b hb
  have hmap : p ∈ b.mapping := ⟨hlo, Nat.lt_of_lt_of_le hhi hplaced.past_le⟩
  obtain ⟨d, hd, rfl⟩ := List.mem_map.mp hb
  have hrange : l.begin ≤ p ∧ p < l.past :=
    ⟨Nat.le_trans hplaced.lo_le hlo, Nat.lt_of_lt_of_le hmap.2 hplaced.le_hi⟩
  have hcontains : d.contains p = true := by
    simp only [LargeBlock.contains, Bool.and_eq_true, decide_eq_true_eq]
    exact ⟨hlo, hhi⟩
  unfold find?
  rw [if_pos hrange]
  cases hfind : l.blocks.find? (·.contains p) with
  | none =>
      have := List.find?_eq_none.mp hfind d hd
      exact absurd hcontains this
  | some c =>
      refine ⟨c, rfl, ?_⟩
      have hc := List.mem_map_of_mem (f := LargeBlock.body) (List.mem_of_find?_eq_some hfind)
      have hin := List.find?_some hfind
      simp only [LargeBlock.contains, Bool.and_eq_true, decide_eq_true_eq] at hin
      exact h.eq_of_mem hc hb ⟨hin.1, Nat.lt_of_lt_of_le hin.2 (h.placed _ hc).past_le⟩ hmap

/-- A block that is found has the address in its mapping. -/
theorem of_find? {p : Nat} {c : LargeBlock} (hfind : l.find? p = some c) :
    c.body ∈ l.bodies ∧ l.begin ≤ p ∧ p < l.past ∧ c.mapBegin ≤ p ∧ p < c.past := by
  unfold find? at hfind
  by_cases hrange : l.begin ≤ p ∧ p < l.past
  · rw [if_pos hrange] at hfind
    have hin := List.find?_some hfind
    simp only [LargeBlock.contains, Bool.and_eq_true, decide_eq_true_eq] at hin
    exact ⟨List.mem_map_of_mem (List.mem_of_find?_eq_some hfind), hrange.1, hrange.2, hin.1, hin.2⟩
  · rw [if_neg hrange] at hfind
    exact nomatch hfind

/-- The address of a block finds the block. -/
theorem blockAt?_eq (h : l.WF) (hb : b ∈ l.bodies) :
    ∃ c, l.blockAt? b.user = some c ∧ c.body = b := by
  have hplaced := h.placed b hb
  have hpast := hplaced.lt_past
  have hple := hplaced.past_le
  obtain ⟨d, hd, rfl⟩ := List.mem_map.mp hb
  have hrange : d.user % Pages.pageSize = 0 ∧ l.begin + Pages.pageSize ≤ d.user
      ∧ d.user < l.past := by
    have h1 := hplaced.lo_le
    have h2 := hplaced.header_le
    have h3 := hplaced.le_hi
    refine ⟨Nat.mod_eq_zero_of_dvd hplaced.user_dvd, ?_, ?_⟩
    · exact Nat.le_trans (Nat.add_le_add_right h1 _) h2
    · exact Nat.lt_of_lt_of_le hpast (Nat.le_trans hple h3)
  change ∃ c, l.blockAt? d.user = some c ∧ c.body = d.body
  unfold blockAt?
  rw [if_pos hrange]
  cases hfind : l.blocks.find? (·.user == d.user) with
  | none =>
      have := List.find?_eq_none.mp hfind d hd
      exact absurd (beq_self_eq_true d.user) this
  | some c =>
      refine ⟨c, rfl, ?_⟩
      have hc := List.mem_map_of_mem (f := LargeBlock.body) (List.mem_of_find?_eq_some hfind)
      have huser : c.user = d.user := by simpa using List.find?_some hfind
      have hcplaced := h.placed _ hc
      refine h.eq_of_mem hc hb (a := d.user) ?_ ?_
      · rw [← huser]
        exact hcplaced.extent_subset ⟨Nat.le_refl _, hcplaced.lt_past⟩
      · exact hplaced.extent_subset ⟨Nat.le_refl _, hpast⟩

/-- A block that is found at an address begins there. -/
theorem of_blockAt? {p : Nat} {c : LargeBlock} (hfind : l.blockAt? p = some c) :
    c.body ∈ l.bodies ∧ c.user = p := by
  unfold blockAt? at hfind
  split at hfind
  · exact ⟨List.mem_map_of_mem (List.mem_of_find?_eq_some hfind),
      by simpa using List.find?_some hfind⟩
  · exact nomatch hfind

/-- No two blocks begin at one address. -/
theorem users_nodup (h : l.WF) : (l.bodies.map (·.user)).Nodup := by
  refine List.pairwise_map.mpr (h.apart.imp_of_mem fun {b c} hb hc hdisjoint heq => ?_)
  have hb' := h.placed b hb
  have hc' := h.placed c hc
  have hin : b.user ∈ b.mapping := hb'.extent_subset ⟨Nat.le_refl _, hb'.lt_past⟩
  have hin' : b.user ∈ c.mapping := by
    rw [heq]
    exact hc'.extent_subset ⟨Nat.le_refl _, hc'.lt_past⟩
  exact Set.disjoint_left.mp hdisjoint hin hin'

end WF

end Large

/-! ## The heap -/

/-- A region with room for what was carved, all of it committed. -/
structure Region.WF (r : Region) (regionSize size : Nat) : Prop where
  user : ∃ n, r.allocatedUser = n * size ∧ r.allocatedMeta = n * Heap.recordSize
    ∧ ∀ slot, n ≤ slot → slot < RangeMap.span → r.records.get slot = {}
  room : Word.roundUp r.allocatedUser Pages.pageSize + Word.roundUp r.allocatedMeta Pages.pageSize
    ≤ regionSize
  user_le : r.allocatedUser ≤ r.mappedUser
  meta_le : r.allocatedMeta ≤ r.mappedMeta
  mappedUser_le : r.mappedUser ≤ regionSize
  mappedMeta_le : r.mappedMeta ≤ regionSize
  mappedUser_dvd : Pages.pageSize ∣ r.mappedUser
  mappedMeta_dvd : Pages.pageSize ∣ r.mappedMeta

theorem Region.wf_new (regionSize size : Nat) : Region.WF {} regionSize size where
  user := ⟨0, (Nat.zero_mul _).symm, (Nat.zero_mul _).symm, fun _ _ _ => RangeMap.get_const _ _⟩
  room := by
    have hround : Word.roundUp 0 Pages.pageSize = 0 := by decide
    show Word.roundUp 0 Pages.pageSize + Word.roundUp 0 Pages.pageSize ≤ _
    rw [hround]
    exact Nat.zero_le _
  user_le := Nat.le_refl _
  meta_le := Nat.le_refl _
  mappedUser_le := Nat.zero_le _
  mappedMeta_le := Nat.zero_le _
  mappedUser_dvd := Nat.dvd_zero _
  mappedMeta_dvd := Nat.dvd_zero _

namespace Heap

/-- The slot was carved. -/
def Carved (h : Heap) (s : Slot) : Prop :=
  ∃ r, h.regions[s.classId]? = some r
    ∧ (s.slot + 1) * h.classes.size s.classId ≤ r.allocatedUser

/-- The block of a slot. -/
def slotBlock (h : Heap) (s : Slot) : Block where
  begin := h.slotBegin s
  size := h.classes.size s.classId
  kind := .small s.classId
  record := h.slotRecord s

/-- The blocks that there are: carved slots and live large blocks. -/
def blocks (h : Heap) : Set Block :=
  {b | (∃ s, h.Carved s ∧ b = h.slotBlock s) ∨ ∃ l ∈ h.large.bodies, b = l.block}

/-- The addresses committed for blocks, with the mappings of the large ones. -/
def committed (h : Heap) : Set Nat :=
  {a | (∃ c r, h.regions[c]? = some r ∧ h.regionBegin c ≤ a ∧ a < h.regionBegin c + r.mappedUser)
    ∨ ∃ l ∈ h.large.bodies, a ∈ l.mapping}

/-- The committed addresses that can be accessed, according to their shadow bytes. -/
def opened (h : Heap) : Set Nat :=
  {a | a ∈ h.committed ∧ h.shadow.Addressable a}

/-- The bytes of the machine's memory. -/
def contents (h : Heap) : Nat → UInt8 := fun a =>
  if a < Word.limit then h.pages.byte a else 0

/-- What stays the same in the life of a heap. -/
structure Layout (h : Heap) : Prop where
  classes : h.classes.Valid
  regions : h.regions.size = h.classes.count
  region_pos : 0 < h.regionSize
  region_dvd : Pages.pageSize ∣ h.regionSize
  begin_pos : 0 < h.space.begin
  begin_dvd : Pages.pageSize ∣ h.space.begin
  large_begin : h.large.begin = h.primaryEnd
  large_past : h.large.past = h.space.endAddr
  large_le : h.large.begin ≤ h.large.past
  end_lt : h.space.endAddr < Word.limit
  end_dvd : Pages.pageSize ∣ h.space.endAddr
  shadow_begin : h.shadow.appBegin = h.space.begin
  shadow_end : h.shadow.appEnd = h.space.endAddr
  shadow_placed : h.shadow.Placed

/-- The tables agree with each other and with the pages. -/
structure WF (h : Heap) : Prop where
  layout : h.Layout
  region : ∀ c r, h.regions[c]? = some r → Region.WF r h.regionSize (h.classes.size c)
  large : h.large.WF
  backed : ∀ a ∈ h.committed, h.pages.Writable a
  records : ∀ c r, h.regions[c]? = some r → ∀ a,
    h.regionBegin c + h.regionSize - r.mappedMeta ≤ a → a < h.regionBegin c + h.regionSize →
      h.pages.Writable a

/-- The regions for themselves: they have room for what was carved, and their committed bytes can be
    written. -/
structure Tracts (h : Heap) : Prop where
  regions : h.regions.size = h.classes.count
  size_pos : ∀ c, c < h.regions.size → 0 < h.classes.size c
  region_dvd : Pages.pageSize ∣ h.regionSize
  begin_dvd : Pages.pageSize ∣ h.space.begin
  end_lt : h.primaryEnd < Word.limit
  region : ∀ c r, h.regions[c]? = some r → Region.WF r h.regionSize (h.classes.size c)
  user : ∀ c r, h.regions[c]? = some r → ∀ a,
    h.regionBegin c ≤ a → a < h.regionBegin c + r.mappedUser → h.pages.Writable a
  records : ∀ c r, h.regions[c]? = some r → ∀ a,
    h.regionBegin c + h.regionSize - r.mappedMeta ≤ a → a < h.regionBegin c + h.regionSize →
      h.pages.Writable a

/-- The tracts of a well-formed heap are in order. -/
theorem WF.tracts {h : Heap} (hwf : h.WF) : h.Tracts where
  regions := hwf.layout.regions
  size_pos _ hc := hwf.layout.classes.size_pos (hwf.layout.regions ▸ hc)
  region_dvd := hwf.layout.region_dvd
  begin_dvd := hwf.layout.begin_dvd
  end_lt := by
    rw [← hwf.layout.large_begin]
    exact Nat.lt_of_le_of_lt (Nat.le_trans hwf.layout.large_le (Nat.le_of_eq hwf.layout.large_past))
      hwf.layout.end_lt
  region := hwf.region
  user c r hr a hlo hhi := hwf.backed a (.inl ⟨c, r, hr, hlo, hhi⟩)
  records := hwf.records

/-! ## Places -/

section Places

variable {h : Heap} {c a : Nat} {s : Slot}

/-- The regions end with a page. -/
theorem Layout.primaryEnd_dvd (hl : h.Layout) : Pages.pageSize ∣ h.primaryEnd :=
  Nat.dvd_add hl.begin_dvd (Dvd.dvd.mul_left hl.region_dvd _)

theorem Layout.regionBegin_dvd (hl : h.Layout) (c : Nat) : Pages.pageSize ∣ h.regionBegin c :=
  Nat.dvd_add hl.begin_dvd (Dvd.dvd.mul_left hl.region_dvd _)

/-- Each region ends before the regions do. -/
theorem region_le_primaryEnd (hc : c < h.regions.size) :
    h.regionBegin c + h.regionSize ≤ h.primaryEnd := by
  have hmul := Nat.mul_le_mul_right h.regionSize (Nat.succ_le_of_lt hc)
  rw [Nat.succ_mul] at hmul
  unfold regionBegin primaryEnd
  omega

/-- No region begins before the reserved range. -/
theorem begin_le_regionBegin : h.space.begin ≤ h.regionBegin c :=
  Nat.le_add_right _ _

/-- An address of a region is found in its class. -/
theorem classOf_eq (hlo : h.regionBegin c ≤ a) (hhi : a < h.regionBegin c + h.regionSize) :
    h.classOf a = c := by
  unfold classOf
  unfold regionBegin at hlo hhi
  refine Nat.div_eq_of_lt_le (by omega) ?_
  rw [Nat.succ_mul]
  omega

/-- An address is in the primary range if it lies between the beginning of the space and its end. -/
theorem isPrimary_iff : h.isPrimary a = true ↔ h.space.begin ≤ a ∧ a < h.primaryEnd := by
  rw [isPrimary, Bool.and_eq_true, decide_eq_true_eq, decide_eq_true_eq]
  exact Iff.rfl

/-- A region lies in the primary range. -/
theorem isPrimary_of_region (hc : c < h.regions.size) (hlo : h.regionBegin c ≤ a)
    (hhi : a < h.regionBegin c + h.regionSize) : h.isPrimary a = true :=
  isPrimary_iff.mpr ⟨Nat.le_trans begin_le_regionBegin hlo,
    Nat.lt_of_lt_of_le hhi (region_le_primaryEnd hc)⟩

theorem lt_size_of_region {r : Region} (hr : h.regions[c]? = some r) : c < h.regions.size :=
  (Array.getElem?_eq_some_iff.mp hr).1

/-- A carved block lies in the part of its region that was carved. -/
theorem slot_bounds {r : Region} (hcarved : (s.slot + 1) * h.classes.size s.classId ≤ r.allocatedUser) :
    h.regionBegin s.classId ≤ h.slotBegin s
      ∧ h.slotBegin s + h.classes.size s.classId ≤ h.regionBegin s.classId + r.allocatedUser := by
  rw [Nat.succ_mul] at hcarved
  unfold slotBegin
  omega

/-- An address of a carved block finds the block. -/
theorem Tracts.locate?_eq (ht : h.Tracts) (hcarved : h.Carved s) (ha : a ∈ (h.slotBlock s).extent) :
    h.isPrimary a = true ∧ h.classOf a = s.classId ∧ h.locate? a = some s := by
  obtain ⟨r, hr, hle⟩ := hcarved
  obtain ⟨hlo, hhi⟩ := ha
  obtain ⟨hslot, hpast⟩ := slot_bounds (h := h) hle
  have hregion := ht.region _ r hr
  have hc := lt_size_of_region hr
  have hsize := ht.size_pos _ hc
  have huser := hregion.user_le
  have hmapped := hregion.mappedUser_le
  change h.slotBegin s ≤ a at hlo
  change a < h.slotBegin s + h.classes.size s.classId at hhi
  have hclass : h.classOf a = s.classId := classOf_eq (by omega) (by omega)
  have hprimary : h.isPrimary a = true := isPrimary_of_region hc (c := s.classId) (by omega) (by omega)
  refine ⟨hprimary, hclass, ?_⟩
  have hdiv : (a - h.regionBegin s.classId) / h.classes.size s.classId = s.slot := by
    unfold slotBegin at hlo hhi
    refine Nat.div_eq_of_lt_le (by omega) ?_
    rw [Nat.succ_mul]
    omega
  unfold locate?
  rw [if_pos hprimary]
  simp only [hclass, hdiv, hr, hle, if_true]

/-- What is found is a carved block with the address. -/
theorem Tracts.of_locate? (ht : h.Tracts) (hfind : h.locate? a = some s) :
    h.Carved s ∧ a ∈ (h.slotBlock s).extent ∧ h.isPrimary a = true := by
  unfold locate? at hfind
  by_cases hprimary : h.isPrimary a = true
  · rw [if_pos hprimary] at hfind
    dsimp only at hfind
    cases hr : h.regions[h.classOf a]? with
    | none =>
        rw [hr] at hfind
        exact nomatch hfind
    | some r =>
        rw [hr] at hfind
        dsimp only at hfind
        split at hfind
        · rename_i hle
          obtain rfl := Option.some.inj hfind
          have hsize := ht.size_pos _ (lt_size_of_region hr)
          have hbegin := (isPrimary_iff.mp hprimary).1
          have hregion : h.regionBegin (h.classOf a) ≤ a := by
            have := Nat.div_mul_le_self (a - h.space.begin) h.regionSize
            unfold regionBegin classOf
            omega
          refine ⟨⟨r, hr, hle⟩, ⟨?_, ?_⟩, hprimary⟩
          · have := Nat.div_mul_le_self (a - h.regionBegin (h.classOf a))
              (h.classes.size (h.classOf a))
            change h.regionBegin (h.classOf a) + (a - h.regionBegin (h.classOf a)) /
              h.classes.size (h.classOf a) * h.classes.size (h.classOf a) ≤ a
            omega
          · have := Nat.lt_div_mul_add (a := a - h.regionBegin (h.classOf a)) hsize
            change a < h.regionBegin (h.classOf a) + (a - h.regionBegin (h.classOf a)) /
              h.classes.size (h.classOf a) * h.classes.size (h.classOf a) +
                h.classes.size (h.classOf a)
            omega
        · exact nomatch hfind
  · rw [if_neg hprimary] at hfind
    exact nomatch hfind

/-- Blocks of a class are not empty. -/
theorem WF.size_pos (hwf : h.WF) (hc : c < h.regions.size) : 0 < h.classes.size c :=
  hwf.tracts.size_pos c hc

/-- The secondary range does not begin at zero. -/
theorem WF.large_begin_pos (hwf : h.WF) : 0 < h.large.begin := by
  have hpos := hwf.layout.begin_pos
  rw [hwf.layout.large_begin]
  unfold primaryEnd
  omega

/-- Every address of a carved slot is looked up as one of that slot. -/
theorem WF.locate?_eq (hwf : h.WF) (hcarved : h.Carved s) (ha : a ∈ (h.slotBlock s).extent) :
    h.isPrimary a = true ∧ h.classOf a = s.classId ∧ h.locate? a = some s :=
  hwf.tracts.locate?_eq hcarved ha

/-- A slot that is looked up was carved, and has the address. -/
theorem WF.of_locate? (hwf : h.WF) (hfind : h.locate? a = some s) :
    h.Carved s ∧ a ∈ (h.slotBlock s).extent ∧ h.isPrimary a = true :=
  hwf.tracts.of_locate? hfind

/-- The mappings of large blocks lie behind the regions. -/
theorem WF.mapping_bounds (hwf : h.WF) {l : LargeBlock} (hl : l ∈ h.large.bodies)
    (ha : a ∈ l.mapping) : h.primaryEnd ≤ a ∧ a < h.space.endAddr ∧ h.isPrimary a = false := by
  have hplaced := hwf.large.placed l hl
  have hlo : h.primaryEnd ≤ a := by
    rw [← hwf.layout.large_begin]
    exact Nat.le_trans hplaced.lo_le ha.1
  refine ⟨hlo, ?_, ?_⟩
  · rw [← hwf.layout.large_past]
    exact Nat.lt_of_lt_of_le ha.2 hplaced.le_hi
  · rw [← Bool.not_eq_true, isPrimary_iff]
    omega

end Places

/-! ## Blocks -/

section Blocks

variable {h : Heap} {b c : Block} {a : Nat}

/-- The blocks of a well-formed heap are not empty and do not overlap. -/
theorem WF.tiled (hwf : h.WF) : Tiled h.blocks where
  solid b hb := by
    rcases hb with ⟨s, ⟨r, hr, -⟩, rfl⟩ | ⟨l, hl, rfl⟩
    · exact hwf.size_pos (lt_size_of_region hr)
    · show 0 < Word.roundUp l.size Pages.pageSize
      exact Nat.lt_of_lt_of_le (hwf.large.placed l hl).size_pos Word.le_roundUp
  apart b hb c hc hne := by
    refine Set.disjoint_left.mpr fun a hab hac => hne ?_
    rcases hb with ⟨s, hs, rfl⟩ | ⟨l, hl, rfl⟩
    · obtain ⟨hprimary, -, hlocate⟩ := hwf.locate?_eq hs hab
      rcases hc with ⟨s', hs', rfl⟩ | ⟨m, hm, rfl⟩
      · have hlocate' := (hwf.locate?_eq hs' hac).2.2
        rw [hlocate] at hlocate'
        obtain rfl := Option.some.inj hlocate'
        rfl
      · have hout := (hwf.mapping_bounds hm ((hwf.large.placed m hm).extent_subset hac)).2.2
        rw [hprimary] at hout
        exact nomatch hout
    · have hmap := (hwf.large.placed l hl).extent_subset hab
      rcases hc with ⟨s', hs', rfl⟩ | ⟨m, hm, rfl⟩
      · have hprimary := (hwf.locate?_eq hs' hac).1
        rw [(hwf.mapping_bounds hl hmap).2.2] at hprimary
        exact nomatch hprimary
      · rw [hwf.large.eq_of_mem hl hm hmap ((hwf.large.placed m hm).extent_subset hac)]

/-- The bytes of a block are committed. -/
theorem WF.extent_subset (hwf : h.WF) (hb : b ∈ h.blocks) : b.extent ⊆ h.committed := by
  intro a ha
  rcases hb with ⟨s, ⟨r, hr, hle⟩, rfl⟩ | ⟨l, hl, rfl⟩
  · obtain ⟨hlo, hhi⟩ := slot_bounds (h := h) hle
    have huser := (hwf.region _ r hr).user_le
    refine .inl ⟨s.classId, r, hr, Nat.le_trans hlo ha.1, ?_⟩
    exact Nat.lt_of_lt_of_le ha.2 (Nat.le_trans hhi (Nat.add_le_add_left huser _))
  · exact .inr ⟨l, hl, (hwf.large.placed l hl).extent_subset ha⟩

/-- Committed addresses are tracked by the shadow, and are words. -/
theorem WF.committed_bounds (hwf : h.WF) (ha : a ∈ h.committed) :
    h.space.begin ≤ a ∧ a < h.space.endAddr := by
  have hl := hwf.layout
  rcases ha with ⟨c, r, hr, hlo, hhi⟩ | ⟨l, hl', ha⟩
  · have h1 := begin_le_regionBegin (h := h) (c := c)
    have h2 := region_le_primaryEnd (lt_size_of_region hr)
    have h3 := (hwf.region c r hr).mappedUser_le
    have h4 := hl.large_le
    rw [hl.large_begin, hl.large_past] at h4
    omega
  · obtain ⟨hlo, hhi, -⟩ := hwf.mapping_bounds hl' ha
    have : h.space.begin ≤ h.primaryEnd := Nat.le_add_right _ _
    omega

/-- Blocks lie in the reserved range. -/
theorem WF.extent_bounds (hwf : h.WF) (hb : b ∈ h.blocks) (ha : a ∈ b.extent) :
    h.space.begin ≤ a ∧ a < h.space.endAddr :=
  hwf.committed_bounds (hwf.extent_subset hb ha)

/-- A block ends inside the heap's range. -/
theorem WF.past_le (hwf : h.WF) (hb : b ∈ h.blocks) :
    h.space.begin ≤ b.begin ∧ b.past ≤ h.space.endAddr := by
  have hpos := hwf.tiled.solid b hb
  have hfirst := hwf.extent_bounds hb (Block.begin_mem_extent hpos)
  have hlast := hwf.extent_bounds hb (a := b.past - 1)
    ⟨by unfold Block.past; omega, by unfold Block.past; omega⟩
  have : b.past = b.begin + b.size := rfl
  omega

theorem granule_dvd_pageSize : Shadow.granule ∣ Pages.pageSize := by decide

/-- A block consists of whole granules. -/
theorem WF.granule_dvd (hwf : h.WF) (hb : b ∈ h.blocks) :
    Shadow.granule ∣ b.begin ∧ Shadow.granule ∣ b.size := by
  rcases hb with ⟨s, ⟨r, hr, -⟩, rfl⟩ | ⟨l, hl, rfl⟩
  · have hdvd := hwf.layout.classes.size_dvd (hwf.layout.regions ▸ lt_size_of_region hr)
    refine ⟨?_, hdvd⟩
    exact Nat.dvd_add (Nat.dvd_trans granule_dvd_pageSize (hwf.layout.regionBegin_dvd _))
      (Dvd.dvd.mul_left hdvd _)
  · refine ⟨Nat.dvd_trans granule_dvd_pageSize (hwf.large.placed l hl).user_dvd, ?_⟩
    exact Nat.dvd_trans granule_dvd_pageSize (Word.dvd_roundUp (by decide))

/-- An address of a block finds where the block begins. -/
theorem WF.blockBegin?_eq (hwf : h.WF) (hb : b ∈ h.blocks) (ha : a ∈ b.extent) :
    h.blockBegin? a = some b.begin := by
  unfold blockBegin?
  rcases hb with ⟨s, hs, rfl⟩ | ⟨l, hl, rfl⟩
  · obtain ⟨hprimary, -, hlocate⟩ := hwf.locate?_eq hs ha
    rw [if_pos hprimary, hlocate]
    rfl
  · have hplaced := hwf.large.placed l hl
    have hmap := hplaced.extent_subset ha
    obtain ⟨c, hfind, rfl⟩ := hwf.large.find?_eq hl hmap.1 ha.2
    rw [if_neg (by rw [(hwf.mapping_bounds hl hmap).2.2]; decide), Large.blockBegin?, hfind]
    rfl

/-- What is found at an address is where a block begins. -/
theorem WF.of_blockBegin? (hwf : h.WF) {p : Nat} (hfind : h.blockBegin? a = some p) :
    ∃ b ∈ h.blocks, b.begin = p := by
  unfold blockBegin? at hfind
  by_cases hprimary : h.isPrimary a = true
  · rw [if_pos hprimary] at hfind
    obtain ⟨s, hs, rfl⟩ := Option.map_eq_some_iff.mp hfind
    exact ⟨h.slotBlock s, .inl ⟨s, (hwf.of_locate? hs).1, rfl⟩, rfl⟩
  · rw [if_neg hprimary] at hfind
    obtain ⟨l, hl, rfl⟩ := Option.map_eq_some_iff.mp hfind
    exact ⟨l.body.block, .inr ⟨l.body, (Large.WF.of_find? hl).1, rfl⟩, rfl⟩

/-- The first address of a block finds its kind, its size and its record. -/
theorem WF.begin_spec (hwf : h.WF) (hb : b ∈ h.blocks) :
    h.blockClass b.begin = b.kind ∧ h.actualSize? b.begin = some b.size
      ∧ h.record? b.begin = some b.record := by
  have hin := Block.begin_mem_extent (hwf.tiled.solid b hb)
  unfold blockClass actualSize? record?
  rcases hb with ⟨s, hs, rfl⟩ | ⟨l, hl, rfl⟩
  · obtain ⟨hprimary, hclass, hlocate⟩ := hwf.locate?_eq hs hin
    rw [if_pos hprimary, if_pos hprimary, if_pos hprimary, hlocate, hclass]
    exact ⟨rfl, rfl, rfl⟩
  · have hplaced := hwf.large.placed l hl
    have hmap := hplaced.extent_subset hin
    have hout : ¬ h.isPrimary l.block.begin = true := by
      rw [(hwf.mapping_bounds hl hmap).2.2]
      decide
    obtain ⟨c, hfind, rfl⟩ := hwf.large.find?_eq hl hmap.1 hin.2
    obtain ⟨d, hat, hbody⟩ := hwf.large.blockAt?_eq hl
    have hrecord : d.body.record = c.body.record := by rw [hbody]
    rw [if_neg hout, if_neg hout, if_neg hout]
    refine ⟨rfl, ?_, ?_⟩
    · show h.large.actualSize? c.user = _
      change h.large.find? c.user = some c at hfind
      unfold Large.actualSize?
      rw [hfind]
      exact if_pos rfl
    · show (h.large.blockAt? c.user).map (·.record) = _
      change h.large.blockAt? c.user = some d at hat
      rw [hat]
      exact congrArg some hrecord

end Blocks

end Heap

end GuardedHeap
