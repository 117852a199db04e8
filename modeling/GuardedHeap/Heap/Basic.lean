import GuardedHeap.Heap.Error
import GuardedHeap.Heap.Large
import GuardedHeap.SizeClass

/-! # Heaps — one reserved range, regions first, large blocks behind

    The range begins with one region for each size class, all of one size;
    the secondary range for large blocks follows without a gap, and one
    shadow covers both.  A region carves its blocks upward from its
    beginning, and their records downward from its end, so that the number
    of a block in its class gives the address of either. -/

namespace GuardedHeap

/-- The state of one size class. -/
structure Region where
  /-- The free blocks; the first is the next to be used. -/
  freeList : List Nat := []
  /-- The bytes carved for blocks. -/
  allocatedUser : Nat := 0
  /-- The bytes carved for records. -/
  allocatedMeta : Nat := 0
  /-- The bytes committed at the beginning of the region. -/
  mappedUser : Nat := 0
  /-- The bytes committed at the end of the region. -/
  mappedMeta : Nat := 0
  /-- The record of each block, by the number of the block. -/
  records : RangeMap ChunkRecord := .const {}
  deriving Repr, Inhabited

/-- A heap. -/
structure Heap where
  pages : Pages
  shadow : Shadow
  /-- The reserved range. -/
  space : Mapping
  /-- The number of bytes of a region. -/
  regionSize : Nat
  classes : SizeClasses
  /-- One region for each class. -/
  regions : Array Region
  large : Large

/-- A block of a size class: the class, and the number of the block. -/
structure Slot where
  classId : Nat
  slot : Nat
  deriving DecidableEq, Repr

namespace Heap

/-- The number of bytes of a record. -/
def recordSize : Nat := 48

/-- A heap with these classes, with regions of `2 ^ regionLog` and a secondary range of
    `2 ^ secondaryLog` bytes. -/
def create (classes : SizeClasses) (regionLog secondaryLog : Nat) : Act AllocError Pages Heap := do
  let primarySize ← Word.shiftLeft classes.count regionLog
  let secondarySize ← Word.shiftLeft 1 secondaryLog
  let size ← Word.add primarySize secondarySize
  let regionSize ← Word.shiftLeft 1 regionLog
  let space ← Act.mapError .map (Pages.reserve size regionSize)
  match ← Act.attempt (Shadow.create space.begin space.size) with
  | .error e =>
    modify (Pages.drop space)
    Act.refuse (.shadow e)
  | .ok shadow =>
    return {
      pages := ← get
      shadow
      space
      regionSize
      classes
      regions := Array.replicate classes.count {}
      large := Large.new (space.begin + primarySize) secondarySize
    }

/-! ## Parts of the state -/

/-- An action on the pages of a heap. -/
def onPages {α : Type} (act : Act MapError Pages α) : Act AllocError Heap α :=
  Act.mapError .map (Act.onPart (·.pages) (fun h pages => { h with pages }) act)

/-- An action on the shadow of a heap. -/
def onShadow {ε α : Type} (f : ShadowError → ε) (act : Act ShadowError Shadow α) :
    Act ε Heap α :=
  Act.mapError f (Act.onPart (·.shadow) (fun h shadow => { h with shadow }) act)

/-- Mark `[addr, addr + size)` in the shadow. -/
def poison (addr size : Nat) (why : Shadow.Magic) : Act AllocError Heap Unit :=
  onShadow .shadow (Shadow.poison addr size why.byte)

/-- The heap with another region for a class. -/
def setRegion (h : Heap) (classId : Nat) (r : Region) : Heap :=
  { h with regions := h.regions.setIfInBounds classId r }

/-! ## Places -/

/-- The first address of the regions. -/
def primaryBegin (h : Heap) : Nat :=
  h.space.begin

/-- The address after the regions. -/
def primaryEnd (h : Heap) : Nat :=
  h.space.begin + h.regions.size * h.regionSize

/-- The address is in a region. -/
def isPrimary (h : Heap) (p : Nat) : Bool :=
  h.primaryBegin ≤ p && p < h.primaryEnd

/-- The first address of a region. -/
def regionBegin (h : Heap) (classId : Nat) : Nat :=
  h.space.begin + classId * h.regionSize

/-- The class whose region an address behind the beginning of the heap would lie in. -/
def classOf (h : Heap) (p : Nat) : Nat :=
  (p - h.space.begin) / h.regionSize

/-- The carved block that an address lies in. -/
def locate? (h : Heap) (p : Nat) : Option Slot :=
  if h.isPrimary p then
    let classId := h.classOf p
    let size := h.classes.size classId
    let slot := (p - h.regionBegin classId) / size
    match h.regions[classId]? with
    | some r => if (slot + 1) * size ≤ r.allocatedUser then some ⟨classId, slot⟩ else none
    | none => none
  else none

/-- The first address of a block. -/
def slotBegin (h : Heap) (s : Slot) : Nat :=
  h.regionBegin s.classId + s.slot * h.classes.size s.classId

/-- The address of the record of a block. -/
def slotRecordAddr (h : Heap) (s : Slot) : Nat :=
  h.regionBegin s.classId + h.regionSize - (s.slot + 1) * recordSize

/-- The record of a block. -/
def slotRecord (h : Heap) (s : Slot) : ChunkRecord :=
  match h.regions[s.classId]? with
  | some r => r.records.get s.slot
  | none => {}

/-- The heap with another record for a block. -/
def setSlotRecord (h : Heap) (s : Slot) (record : ChunkRecord) : Heap :=
  match h.regions[s.classId]? with
  | some r => h.setRegion s.classId { r with records := r.records.set s.slot record }
  | none => h

/-! ## Blocks of either kind -/

/-- The address lies in a carved block or in the mapping of a live large one. -/
def isMine (h : Heap) (p : Nat) : Bool :=
  (h.locate? p).isSome || (h.large.find? p).isSome

/-- Where the block begins that an address belongs to. -/
def blockBegin? (h : Heap) (p : Nat) : Option Nat :=
  if h.isPrimary p then (h.locate? p).map h.slotBegin else h.large.blockBegin? p

/-- What kind of block lies at an address. -/
def blockClass (h : Heap) (p : Nat) : BlockClass :=
  if h.isPrimary p then .small (h.classOf p) else .large

/-- The record of a block. -/
def record? (h : Heap) (block : Nat) : Option ChunkRecord :=
  if h.isPrimary block then (h.locate? block).map h.slotRecord else h.large.record? block

/-- The heap with another record for a block. -/
def setRecord (h : Heap) (block : Nat) (record : ChunkRecord) : Heap :=
  if h.isPrimary block then
    match h.locate? block with
    | some s => h.setSlotRecord s record
    | none => h
  else { h with large := h.large.setRecord block record }

/-- The address of the record of a block. -/
def recordAddr? (h : Heap) (block : Nat) : Option Nat :=
  match h.locate? block with
  | some s => some (h.slotRecordAddr s)
  | none => if h.large.isMine block then some (Large.recordAddr block) else none

/-- The number of bytes of a block. -/
def actualSize? (h : Heap) (block : Nat) : Option Nat :=
  if h.isPrimary block then (h.locate? block).map fun s => h.classes.size s.classId
  else h.large.actualSize? block

/-! ## Sizes -/

/-- The bytes that a region keeps committed. -/
def regionUsed (h : Heap) (r : Region) : Nat :=
  min (r.mappedUser + r.mappedMeta) h.regionSize

/-- The bytes that all regions keep committed. -/
def primaryUsed (h : Heap) : Nat :=
  h.regions.toList.foldr (fun r used => h.regionUsed r + used) 0

/-- The bytes that the heap keeps committed. -/
def totalUsed (h : Heap) : Nat :=
  h.primaryUsed + h.large.totalMapped

/-- The number of free blocks of a class, zero if there is no such class. -/
def freeCount (h : Heap) (classId : Nat) : Nat :=
  (h.regions[classId]?.map (·.freeList.length)).getD 0

end Heap

end GuardedHeap
