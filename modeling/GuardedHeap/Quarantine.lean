import GuardedHeap.Word

/-! # Quarantine — freed blocks wait before they are used again

    A freed block joins the batch of its thread.  A batch that has grown
    beyond its limit goes, whole and in order, to the end of one global
    queue; while that queue holds more bytes than its budget, its oldest
    blocks leave and may be used again.  With no budget at all a block
    does not wait. -/

namespace GuardedHeap

namespace Quarantine

/-- A freed block. -/
structure Entry where
  block : Nat
  /-- The first byte that the user had. -/
  user : Nat
  /-- The number of bytes of the block. -/
  size : Nat
  deriving DecidableEq, Repr

/-- The freed blocks of one thread, in the order of their frees. -/
structure Batch where
  entries : List Entry := []
  bytes : Nat := 0
  deriving DecidableEq, Repr

end Quarantine

/-- The global queue, oldest block first, and its limits. -/
structure Quarantine where
  /-- The budget of the queue. -/
  maxBytes : Nat
  /-- A batch beyond this joins the queue. -/
  batchLimit : Nat
  queue : List Quarantine.Entry := []
  bytes : Nat := 0
  deriving DecidableEq, Repr

namespace Quarantine

/-- An empty quarantine; a batch never gets more room than the queue. -/
def new (size threadSize : Nat) : Quarantine where
  maxBytes := size
  batchLimit := min threadSize size

/-- Entries that left, and what is left: the batch and the queue. -/
structure Eviction where
  evicted : List Entry
  batch : Batch
  queue : Quarantine
  deriving DecidableEq, Repr

/-- The oldest entries that must leave for `bytes` bytes to come down to `budget`, the entries
    that stay, and their bytes. -/
def evict (budget : Nat) : (queue : List Entry) → (bytes : Nat) → List Entry × List Entry × Nat
  | [], bytes => ([], [], bytes)
  | e :: rest, bytes =>
    if bytes ≤ budget then ([], e :: rest, bytes)
    else
      let (out, kept, left) := evict budget rest (bytes - e.size)
      (e :: out, kept, left)

/-- Move the batch to the end of the queue and evict what is too much. -/
def splice (q : Quarantine) (batch : Batch) : Checked Eviction := do
  let bytes ← Word.add q.bytes batch.bytes
  let (evicted, queue, bytes) := evict q.maxBytes (q.queue ++ batch.entries) bytes
  return { evicted, batch := {}, queue := { q with queue, bytes } }

/-- Take in a freed block. -/
def put (q : Quarantine) (batch : Batch) (e : Entry) : Checked Eviction := do
  if q.maxBytes = 0 then
    return { evicted := [e], batch, queue := q }
  let bytes ← Word.add batch.bytes e.size
  let batch : Batch := { entries := batch.entries ++ [e], bytes }
  if bytes > q.batchLimit then
    q.splice batch
  else
    return { evicted := [], batch, queue := q }

/-- Move a batch to the queue though it is not full. -/
def drain (q : Quarantine) (batch : Batch) : Checked Eviction :=
  if batch.entries.isEmpty then .ok { evicted := [], batch, queue := q } else q.splice batch

/-- All entries of the queue leave. -/
def purge (q : Quarantine) : List Entry × Quarantine :=
  (q.queue, { q with queue := [], bytes := 0 })

end Quarantine

end GuardedHeap
