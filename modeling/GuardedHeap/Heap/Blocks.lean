import GuardedHeap.Heap.Cache
import GuardedHeap.Heap.LargeBlocks

/-! # Blocks — allocation by size, whatever kind of block it takes

    A request goes to a size class if its size and alignment fit one, and
    to a mapping of its own otherwise.  Blocks go back where they came
    from, which their address tells. -/

namespace GuardedHeap.Heap.Session

/-- Allocate at least `size` bytes at a multiple of `alignment`. -/
def allocate (size alignment : Nat) : Act AllocError Session Nat := do
  if !Word.isPowerOfTwo alignment then
    Act.refuse (.invalidAlignment alignment)
  let size := max size 1
  if (Word.add? size alignment).isNone then
    Act.refuse (.overflow size alignment)
  let size ← if alignment > Shadow.granule then Word.nextMultiple size alignment else pure size
  let h := (← get).heap
  if h.canAllocateSmall size alignment then
    match ← h.classes.alignedClassOf? size alignment with
    | some classId => takeCached classId
    | none => Act.refuse (.noSizeClass size)
  else
    onHeap (allocateLarge size alignment)

/-- Free the block that begins at `p`; nothing begins at zero, and freeing it does nothing. -/
def free (p : Nat) : Act AllocError Session Unit := do
  if p = 0 then
    return
  let h := (← get).heap
  if h.isPrimary p then
    if h.blockBegin? p ≠ some p then
      Act.refuse (.unknownPointer p)
    returnCached (h.classOf p) p
  else
    onHeap (freeLarge p)

/-- Move the first `n` bytes of the block at `p` to the one at `fresh`, and free the old one. -/
def moveTo (fresh p n : Nat) : Act AllocError Session Nat := do
  modify fun s => { s with heap := { s.heap with pages := s.heap.pages.copy p fresh n } }
  free p
  return fresh

/-- Move the block at `p` to one of `size` bytes.  Zero is no block, and a size of zero frees. -/
def reallocate (p size alignment : Nat) : Act AllocError Session Nat := do
  if p = 0 then
    return ← allocate size alignment
  if size = 0 then
    free p
    return 0
  let oldSize ← Act.orRefuse (.unknownPointer p) ((← get).heap.actualSize? p)
  let fresh ← allocate size alignment
  moveTo fresh p (min oldSize size)

end GuardedHeap.Heap.Session
