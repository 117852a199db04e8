import GuardedHeap.Config
import GuardedHeap.Heap.Blocks
import GuardedHeap.Quarantine
import GuardedHeap.Redzone.Error

/-! # Redzones — chunks between poisoned bytes

    A user's chunk lies inside a block, with poisoned bytes in front of it
    and behind it:

    ```text
    block                user              user + size         block + actual
      | left redzone (fa) | the user's bytes | right redzone (fb) ... slack |
    ```

    A freed chunk is poisoned as a whole and waits in the quarantine; only
    recycling gives its block back to the heap. -/

namespace GuardedHeap

namespace Heap

/-- The heap with other contents. -/
def mapPages (h : Heap) (f : Pages → Pages) : Heap :=
  { h with pages := f h.pages }

/-- The chunk of the block that an address belongs to. -/
def chunk? (h : Heap) (p : Nat) : Option Chunk := do
  let block ← h.blockBegin? p
  let record ← h.record? block
  return { block, kind := h.blockClass block, record }

/-- The chunk that a user has at `p`. -/
def userChunk? (h : Heap) (p : Nat) : Option Chunk :=
  (h.chunk? p).filter fun c => c.record.userBegin == p && c.record.state == .allocated

/-- The number of bytes that a user asked for at `p`. -/
def usableSize? (h : Heap) (p : Nat) : Option Nat :=
  (h.userChunk? p).map (·.record.requestedSize)

/-- The chunk of the block right below, if an address behind its user's bytes may be meant for
    it. -/
def previousChunk (h : Heap) (block addr : Nat) : Checked (Option Chunk) :=
  match h.blockClass block with
  | .large => .ok none
  | .small _ =>
    if block = 0 then .ok none
    else
      match h.chunk? (block - 1) with
      | none => .ok none
      | some c =>
        if c.isLive && c.block ≠ block then do
          return if addr ≥ (← c.userEnd) then some c else none
        else .ok none

/-- The chunk that an address is most likely meant for: that of its block from the user's
    bytes on; before them, whichever of that chunk and the one below ends or begins nearer.
    Recycled chunks are meant by nobody. -/
def findChunk (h : Heap) (addr : Nat) : Checked (Option Chunk) := do
  let current := (h.chunk? addr).filter Chunk.isLive
  match current with
  | some c => if addr ≥ c.record.userBegin then return some c
  | none => pure ()
  match h.blockBegin? addr with
  | none => return none
  | some block =>
    match current, ← h.previousChunk block addr with
    | some c, some prev =>
      return some (if addr - (← prev.userEnd) < c.record.userBegin - addr then prev else c)
    | some c, none => return some c
    | none, prev => return prev

end Heap

namespace Redzone

open Heap (Session)

/-- A chunk that has been freed. -/
structure Freed where
  entry : Quarantine.Entry
  requestedSize : Nat
  /-- The fault of a free that was carried out nevertheless. -/
  warning : Option FreeError
  deriving DecidableEq, Repr

/-- Mark the block of a fresh chunk: redzones around the user's bytes. -/
def mark (block actual left size : Nat) : Act AllocError Heap Unit := do
  let user := block + left
  Heap.poison block left .heapLeftRedzone
  Heap.onShadow .shadow (Shadow.unpoison user size)
  let right ← Word.nextMultiple (user + size) Shadow.granule
  let slack ← Word.sub (block + actual) right
  Heap.poison right slack .heapRightRedzone

/-- Allocate a chunk of `size` bytes at a multiple of `alignment`. -/
def allocate (o : RedzoneOptions) (size alignment : Nat) (api : Api) (origin : Origin) :
    Act AllocError Session Nat := do
  if !Word.isPowerOfTwo alignment then
    Act.refuse (.invalidAlignment alignment)
  let alignment := max alignment Shadow.granule
  let left := max o.redzone alignment
  let padded ← Act.orRefuse (.overflow size alignment) <|
    (Word.add? left size).bind (Word.add? · o.redzone)
  let block ← Session.allocate padded alignment
  let h := (← get).heap
  let actual ← Act.orRefuse (.unknownPointer block) (h.actualSize? block)
  let _ ← Act.orRefuse (.unknownPointer block) (h.record? block)
  let user := block + left
  Session.onHeap do
    mark block actual left size
    let fill := min size o.maxMallocFillSize
    modify fun h =>
      (h.mapPages (·.writeFill user fill (UInt8.ofNat o.mallocFillByte))).setRecord block <|
        ChunkRecord.recordAllocation
          { userBegin := user, requestedSize := size, actualSize := actual, origin, api }
  return user

/-- Allocate a chunk of `count * size` zero bytes. -/
def allocateZeroed (o : RedzoneOptions) (count size : Nat) (origin : Origin) :
    Act AllocError Session Nat := do
  let total ← Act.orRefuse (.callocOverflow count size) (Word.mul? count size)
  let user ← allocate o total Shadow.granule .malloc origin
  Session.onHeap (modify (·.mapPages (·.writeFill user total 0)))
  return user

/-- Free the chunk that begins at `p`; zero is no chunk, and freeing it does nothing. -/
def free (o : RedzoneOptions) (p : Nat) (api : Api) (origin : Origin) :
    Act FreeError Heap (Option Freed) := do
  if p = 0 then
    return none
  let invalid : FreeError := .invalidFree p origin.tid
  let h ← get
  let block ← Act.orRefuse invalid (h.blockBegin? p)
  let record ← Act.orRefuse invalid (h.record? block)
  if record.userBegin ≠ p then
    Act.refuse invalid
  match record.state with
  | .quarantined =>
    Act.refuse (.doubleFree p origin.tid record.requestedSize record.allocated record.freed)
  | .recycled => Act.refuse invalid
  | .allocated =>
    let mismatch : FreeError :=
      .allocDeallocMismatch p origin.tid record.api api record.allocated.stack
    let isMismatch : Bool := o.allocDeallocMismatch && record.api != api
    if isMismatch && o.haltOnFreeError then
      Act.refuse mismatch
    set (h.setRecord block { record with state := .quarantined, freed := origin })
    Heap.onShadow .shadow (Shadow.poison block record.actualSize Shadow.Magic.heapFreed.byte)
    return some {
      entry := { block, user := p, size := record.actualSize }
      requestedSize := record.requestedSize
      warning := if isMismatch then some mismatch else none
    }

/-- Give the block of a freed chunk back to the heap. -/
def recycle (e : Quarantine.Entry) : Act AllocError Session Unit := do
  let h := (← get).heap
  let record ← Act.orRefuse (.unknownPointer e.block) (h.record? e.block)
  Session.onHeap (modify (·.setRecord e.block record.recycle))
  Session.free e.block

end Redzone

end GuardedHeap
