import GuardedHeap.Heap.Basic

/-! # Small blocks — carving regions and lending out what was carved

    A region without free blocks is populated: it carves as many blocks as
    fit a quarter of a mebibyte, records included, and first commits pages
    for them in larger steps.  Blocks come back to the front of the free
    list. -/

namespace GuardedHeap.Heap

/-- About how many bytes are carved at once. -/
def carveBytes : Nat := 0x40000

/-- How many bytes are committed at once for blocks. -/
def commitBytes : Nat := 0x400000

/-- How many bytes are committed at once for records. -/
def recordCommitBytes : Nat := 0x100000

/-- How many blocks of a size are carved at once. -/
def carveCount (size : Nat) : Nat :=
  max (carveBytes / (size + recordSize)) 1

/-- The region of a class; there must be one. -/
def region (classId : Nat) : Act AllocError Heap Region := do
  Act.orStop (← get).regions[classId]?

/-- Give a class another region. -/
def putRegion (classId : Nat) (r : Region) : Act AllocError Heap Unit :=
  modify (·.setRegion classId r)

/-- How far a region has to reach for its next blocks. -/
structure Reach where
  /-- The bytes carved for blocks. -/
  user : Nat
  /-- The bytes carved for records. -/
  records : Nat
  deriving DecidableEq, Repr

/-- Where carving once more takes a region. -/
def Region.nextReach (r : Region) (size : Nat) : Reach where
  user := r.allocatedUser + carveCount size * size
  records := r.allocatedMeta + carveCount size * recordSize

/-- What is committed does not reach so far. -/
def Region.needsPages (r : Region) (reach : Reach) : Bool :=
  reach.user > r.mappedUser || reach.records > r.mappedMeta

/-- Commit pages up to a reach and more, and poison the new ones that blocks can get. -/
def commitRegion (classId : Nat) (reach : Reach) : Act AllocError Heap Unit := do
  let h ← get
  let r ← region classId
  let begin := h.regionBegin classId
  let userTarget := max (min (Word.roundUp reach.user commitBytes) h.regionSize) r.mappedUser
  let recordTarget :=
    max (min (Word.roundUp reach.records recordCommitBytes) h.regionSize) r.mappedMeta
  onPages (Pages.commit (begin + r.mappedUser) (userTarget - r.mappedUser))
  onPages (Pages.commit (begin + h.regionSize - recordTarget) (recordTarget - r.mappedMeta))
  if userTarget > r.mappedUser then
    poison (begin + r.mappedUser) (userTarget - r.mappedUser) .heapLeftRedzone
  putRegion classId { r with mappedUser := userTarget, mappedMeta := recordTarget }

/-- The region with the blocks of its next reach, lowest first, before its free blocks. -/
def Region.carve (r : Region) (begin size : Nat) (reach : Reach) : Region :=
  let first := begin + r.allocatedUser
  { r with
    freeList := (List.range (carveCount size)).map (fun i => first + i * size) ++ r.freeList
    allocatedUser := reach.user
    allocatedMeta := reach.records }

/-- Carve more blocks for a class. -/
def populate (classId : Nat) : Act AllocError Heap Unit := do
  let h ← get
  let r ← region classId
  let size := h.classes.size classId
  let reach := Region.nextReach r size
  let userPages := Word.roundUp reach.user Pages.pageSize
  let recordPages := Word.roundUp reach.records Pages.pageSize
  if userPages + recordPages > h.regionSize then
    Act.refuse (.regionExhausted classId h.regionSize)
  if Region.needsPages r reach then
    commitRegion classId reach
  let r ← region classId
  putRegion classId (Region.carve r (h.regionBegin classId) size reach)

/-- The region of a class, which has free blocks if it can get some. -/
def stockedRegion (classId : Nat) : Act AllocError Heap Region := do
  let r ← region classId
  if r.freeList.isEmpty then
    populate classId
    region classId
  else
    return r

/-- A block of this size and alignment can be a small one. -/
def canAllocateSmall (h : Heap) (size alignment : Nat) : Bool :=
  size ≤ h.classes.maxSize && alignment ≤ Pages.pageSize

/-- Take one small block without a cache. -/
def allocateSmall (size alignment : Nat) : Act AllocError Heap Nat := do
  let h ← get
  if !h.canAllocateSmall size alignment then
    Act.refuse (.noSizeClass size)
  let classId ← Act.orRefuse (.noSizeClass size) (h.classes.classOf? size)
  let r ← stockedRegion classId
  match r.freeList with
  | [] => Act.refuse (.regionExhausted classId h.regionSize)
  | p :: rest =>
    putRegion classId { r with freeList := rest }
    return p

/-- The class of an address behind the beginning of the heap, by its place. -/
def classOfPlace (p : Nat) : Act AllocError Heap Nat := do
  let h ← get
  let _ ← Word.sub p h.space.begin
  return h.classOf p

/-- Give one small block back without a cache. -/
def freeSmall (p : Nat) : Act AllocError Heap Unit := do
  let classId ← classOfPlace p
  let r ← region classId
  putRegion classId { r with freeList := p :: r.freeList }

/-- Take as many blocks of a class at once as a thread may, as far as there are. -/
def takeBatch (classId : Nat) : Act AllocError Heap (List Nat) := do
  let r ← stockedRegion classId
  let count := (← get).classes.maxCached classId
  putRegion classId { r with freeList := r.freeList.drop count }
  return r.freeList.take count

/-- Give blocks of a class back at once. -/
def returnBatch (classId : Nat) (blocks : List Nat) : Act AllocError Heap Unit := do
  let r ← region classId
  putRegion classId { r with freeList := blocks ++ r.freeList }

end GuardedHeap.Heap
