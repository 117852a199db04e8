import GuardedHeap.Sanitizer.Client

/-! # Allocation — chunks for threads

    The calls of a thread on the heap.  What succeeds is counted; a wrong
    free is counted and logged even where the options let it pass. -/

namespace GuardedHeap.Sanitizer.Client

/-- The options about guarding. -/
def options (c : Client) : RedzoneOptions :=
  c.shared.config.redzoneOptions

/-- Allocate a chunk.  A stack of zero asks for a trace. -/
def allocate (size alignment : Nat) (api : Api) (stack : StackId) : Act AllocError Client Nat := do
  let c ← get
  let origin ← onShared (origin c.thread.tid stack)
  let user ← onSession (Redzone.allocate c.options size alignment api origin)
  onShared (count .mallocs)
  onShared (countBy .bytesAllocated size)
  return user

/-- Allocate a chunk of `times * size` zero bytes. -/
def calloc (times size : Nat) : Act AllocError Client Nat := do
  let c ← get
  let origin ← onShared (origin c.thread.tid 0)
  let user ← onSession (Redzone.allocateZeroed c.options times size origin)
  onShared (count .mallocs)
  onShared (countBy .bytesAllocated (times * size))
  return user

/-- The counter and the event of a wrong free. -/
def wrongFreeEvent : FreeError → Option Counter × String
  | .doubleFree .. => (some .doubleFrees, "double_free")
  | .allocDeallocMismatch .. => (some .allocDeallocMismatches, "alloc_dealloc_mismatch")
  | .invalidFree .. => (some .invalidFrees, "invalid_free")
  | .shadow _ => (none, "shadow_error")

/-- Count and log a wrong free. -/
def noteWrongFree {ε : Type} (tid : Nat) (e : FreeError) (level : EventLog.Level) :
    Act ε Sanitizer Unit := do
  let (counter, event) := wrongFreeEvent e
  match counter with
  | some c => count c
  | none => pure ()
  emit level event fun entry =>
    let entry := (entry.withTid tid).withDetails (.object [("error", .str e.message)])
    match e.addr? with
    | some addr => entry.withAddr addr
    | none => entry

/-- Count and log a wrong free, and refuse. -/
def refuseFree {α : Type} (e : FreeError) : Act SanitizerError Client α := do
  let tid := (← get).thread.tid
  onShared (noteWrongFree tid e .error)
  Act.refuse (.free e)

/-- Free the chunk that begins at `p`. -/
def free (p : Nat) (api : Api) (stack : StackId) : Act SanitizerError Client Unit := do
  let c ← get
  let tid := c.thread.tid
  let origin ← onShared (origin tid stack)
  match ← onShared (onHeap (Act.attempt (Redzone.free c.options p api origin))) with
  | .error e => refuseFree e
  | .ok none => pure ()
  | .ok (some freed) =>
    match freed.warning with
    | some warning => onShared (noteWrongFree tid warning .warn)
    | none => pure ()
    onShared (count .frees)
    onShared (countBy .bytesFreed freed.requestedSize)
    let evicted ← Act.mapError .alloc (quarantine freed.entry)
    Act.mapError .alloc (recycle evicted)

/-- The chunk at `p` that can be moved, or why it cannot. -/
def movable (c : Client) (p : Nat) : Except FreeError Chunk :=
  let tid := c.thread.tid
  match (c.shared.heap.chunk? p).filter (·.record.userBegin == p) with
  | none => .error (.invalidFree p tid)
  | some chunk =>
    let r := chunk.record
    match r.state with
    | .quarantined => .error (.doubleFree p tid r.requestedSize r.allocated r.freed)
    | .recycled => .error (.invalidFree p tid)
    | .allocated =>
      if c.options.allocDeallocMismatch && c.options.haltOnFreeError && r.api != .malloc then
        .error (.allocDeallocMismatch p tid r.api .malloc r.allocated.stack)
      else .ok chunk

/-- Move the chunk at `p` to a fresh one of `size` bytes. -/
def move (p size : Nat) : Act SanitizerError Client Nat := do
  match movable (← get) p with
  | .error e => refuseFree e
  | .ok old =>
    let fresh ← Act.mapError .alloc (allocate size Shadow.granule .malloc 0)
    let kept := min old.record.requestedSize size
    onShared (onHeap (modify (·.mapPages (·.copy p fresh kept))))
    match ← Act.attempt (free p .malloc 0) with
    | .error e =>
      let _ ← Act.attempt (free fresh .malloc 0)
      Act.refuse e
    | .ok () =>
      onShared (count .reallocs)
      return fresh

/-- Change the size of the chunk at `p`; zero is no chunk, and a size of zero frees. -/
def reallocate (p size : Nat) : Act SanitizerError Client Nat := do
  if p = 0 then
    Act.mapError .alloc (allocate size Shadow.granule .malloc 0)
  else if size = 0 then
    free p .malloc 0
    return 0
  else
    move p size

end GuardedHeap.Sanitizer.Client
