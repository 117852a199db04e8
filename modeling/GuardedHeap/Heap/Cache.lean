import GuardedHeap.Heap.Small

/-! # Caches — the small blocks that a thread keeps at hand

    A thread takes free blocks of a class from its own list.  An empty list
    is refilled with a batch from the region, and a list that has grown to
    two batches gives the newer one back. -/

namespace GuardedHeap

/-- The free blocks of a thread. -/
structure Cache where
  /-- The blocks of each class; the first is the next to be used. -/
  lists : Array (List Nat)
  /-- The number of blocks in all lists. -/
  total : Nat := 0
  deriving DecidableEq, Repr

/-- A heap together with the cache of the thread that uses it. -/
structure Heap.Session where
  heap : Heap
  cache : Cache

namespace Cache

/-- An empty cache for a number of classes. -/
def new (classes : Nat) : Cache where
  lists := Array.replicate classes []

/-- The number of blocks of a class. -/
def cached (c : Cache) (classId : Nat) : Nat :=
  (c.lists[classId]?.map List.length).getD 0

/-- The cache with another list and another total. -/
def update (c : Cache) (classId : Nat) (list : List Nat) (total : Nat) : Cache where
  lists := c.lists.setIfInBounds classId list
  total := total

end Cache

namespace Heap.Session

/-- An action on the heap. -/
def onHeap {ε α : Type} (act : Act ε Heap α) : Act ε Session α :=
  Act.onPart (·.heap) (fun s heap => { s with heap }) act

/-- The list of a class; there must be one. -/
def list (classId : Nat) : Act AllocError Session (List Nat) := do
  Act.orStop (← get).cache.lists[classId]?

/-- Give a class another list. -/
def putList (classId : Nat) (list : List Nat) (total : Nat) : Act AllocError Session Unit :=
  modify fun s => { s with cache := s.cache.update classId list total }

/-- Fill the empty list of a class. -/
def refill (classId : Nat) : Act AllocError Session Unit := do
  let batch ← onHeap (takeBatch classId)
  putList classId batch ((← get).cache.total + batch.length)

/-- Take a block of a class. -/
def takeCached (classId : Nat) : Act AllocError Session Nat := do
  if (← list classId).isEmpty then
    refill classId
  match ← list classId with
  | [] => Act.refuse (.regionExhausted classId (← get).heap.regionSize)
  | p :: rest =>
    putList classId rest ((← get).cache.total - 1)
    return p

/-- Give a block of a class back. -/
def returnCached (classId p : Nat) : Act AllocError Session Unit := do
  let batch := max ((← get).heap.classes.maxCached classId) 1
  let list := p :: (← list classId)
  let total := (← get).cache.total + 1
  putList classId list total
  if list.length ≥ (← Word.mul 2 batch) then
    putList classId (list.drop batch) (total - batch)
    onHeap (returnBatch classId (list.take batch))

/-- Give the blocks of the classes from `classId` on back, class by class. -/
def returnLists (classId : Nat) : (lists : List (List Nat)) → Act AllocError Session Unit
  | [] => pure ()
  | list :: rest => do
    if !list.isEmpty then
      onHeap (returnBatch classId list)
    returnLists (classId + 1) rest

/-- Give all cached blocks back. -/
def drain : Act AllocError Session Unit := do
  returnLists 0 (← get).cache.lists.toList
  modify fun s => { s with cache := Cache.new s.cache.lists.size }

end Heap.Session

end GuardedHeap
