import GuardedHeap.Sanitizer.Basic

/-! # Clients — a thread at work on the shared state

    What a call does to the state of its thread and to the shared state is
    one action on the two together, a `Client`.  A registered thread is
    put beside the shared state for the call and back afterwards, whether
    the call succeeded or not. -/

namespace GuardedHeap

namespace Sanitizer

/-- A thread with the state that it shares with others. -/
structure Client where
  thread : Thread
  shared : Sanitizer

namespace Client

/-- An action on the shared state. -/
def onShared {ε α : Type} (act : Act ε Sanitizer α) : Act ε Client α :=
  Act.onPart (·.shared) (fun c shared => { c with shared }) act

/-- The heap with the cache of the thread. -/
def session (c : Client) : Heap.Session :=
  ⟨c.shared.heap, c.thread.cache⟩

/-- The client with another heap and another cache. -/
def withSession (c : Client) (s : Heap.Session) : Client where
  thread := { c.thread with cache := s.cache }
  shared := { c.shared with heap := s.heap }

/-- An action on the heap and the cache of the thread. -/
def onSession {ε α : Type} (act : Act ε Heap.Session α) : Act ε Client α :=
  Act.onPart session withSession act

/-- Take an eviction over into the state. -/
def setQuarantine (e : Quarantine.Eviction) (c : Client) : Client where
  thread := { c.thread with batch := e.batch }
  shared := { c.shared with quarantine := e.queue }

/-- Put a freed chunk into the quarantine and return what leaves it. -/
def quarantine (entry : Quarantine.Entry) : Act AllocError Client (List Quarantine.Entry) := do
  let c ← get
  let e ← c.shared.quarantine.put c.thread.batch entry
  set (setQuarantine e c)
  return e.evicted

/-- Put the batch of the thread into the quarantine and return what leaves it. -/
def drainBatch : Act AllocError Client (List Quarantine.Entry) := do
  let c ← get
  let e ← c.shared.quarantine.drain c.thread.batch
  set (setQuarantine e c)
  return e.evicted

/-- Give the blocks of chunks back to the heap, up to the first that it refuses. -/
def recycle : List Quarantine.Entry → Act AllocError Client Unit
  | [] => pure ()
  | e :: rest => do
    onSession (Redzone.recycle e)
    onShared (count .recycledChunks)
    onShared (countBy .recycledBytes e.size)
    recycle rest

end Client

open Client

/-! ## Threads -/

/-- The threads with another state for one of them. -/
def replaceThread (t : Thread) (threads : List Thread) : List Thread :=
  threads.map fun u => if u.id = t.id then t else u

/-- Run a call of a registered thread; there must be such a thread. -/
def asThread {ε α : Type} (id : Nat) (act : Act ε Client α) : Act ε Sanitizer α := fun s =>
  match s.thread? id with
  | none => .error .stopped s
  | some t =>
    match act ⟨t, s⟩ with
    | .ok a c => .ok a { c.shared with threads := replaceThread c.thread c.shared.threads }
    | .error e c => .error e { c.shared with threads := replaceThread c.thread c.shared.threads }

/-- An action on the heap. -/
def onHeap {ε α : Type} (act : Act ε Heap α) : Act ε Sanitizer α :=
  Act.onPart (·.heap) (fun s heap => { s with heap }) act

/-- Make a fake stack for a thread. -/
def createFakeStack (owner : Nat) : Act SanitizerError Sanitizer FakeStack := do
  let stack ← Act.mapError .fakeStack (onHeap (FakeStack.create (← get).config.fakeStackSizeLog))
  modify fun s => { s with fakeStacks := s.fakeStacks ++ [{ owner, stack }] }
  return stack

/-- Register a thread and return its id.  A registration that fails uses a number up, too. -/
def register : Act SanitizerError Sanitizer Nat := do
  let s ← get
  let id := s.registrations
  set { s with registrations := id + 1 }
  let stack ← if s.config.useFakeStack then some <$> createFakeStack id else pure none
  let t : Thread := { id, cache := Cache.new s.heap.classes.count }
  emit .info "thread_register" fun e =>
    (e.withTid t.tid).withDetails
      (.object [("fake_stack", Json.option (.str <| Text.hex ·.begin) stack)])
  modify fun s => { s with threads := s.threads ++ [t] }
  return id

/-- Give the fake stack of a thread back. -/
def releaseFakeStack (owner : Nat) : Act SanitizerError Sanitizer Unit := do
  let s ← get
  match s.fakeStackOf? owner with
  | none => pure ()
  | some stack =>
    set { s with fakeStacks := s.fakeStacks.filter (·.owner != owner) }
    Act.mapError .fakeStack (onHeap stack.release)

/-- What a thread hands back when it ends: its batch, its cache and its fake stack. -/
def handBack : Act SanitizerError Client Unit := do
  let evicted ← Act.mapError .alloc drainBatch
  Act.mapError .alloc (recycle evicted)
  Act.mapError .alloc (onSession Heap.Session.drain)
  let t := (← get).thread
  onShared (releaseFakeStack t.id)
  onShared (emit .info "thread_unregister" (·.withTid t.tid))

/-- Unregister a thread.  It is gone even if it could not hand everything back; what it still
    held is then lost. -/
def unregister (id : Nat) : Act SanitizerError Sanitizer Unit := fun s =>
  match s.thread? id with
  | none => .error .stopped s
  | some t =>
    let rest := { s with threads := s.threads.filter (·.id != id) }
    match handBack ⟨t, rest⟩ with
    | .ok a c => .ok a c.shared
    | .error e c => .error e c.shared

/-- Recycle the whole quarantine and log the final numbers. -/
def shutdown : Act SanitizerError Sanitizer Stats := fun s =>
  let (purged, quarantine) := s.quarantine.purge
  let helper : Thread := { id := s.registrations, cache := Cache.new s.heap.classes.count }
  let finish : Act SanitizerError Client Stats := do
    Act.mapError .alloc (recycle purged)
    Act.mapError .alloc (onSession Heap.Session.drain)
    let stats ← onShared emitStats
    onShared (emit .info "runtime_shutdown" id)
    return stats
  match finish ⟨helper, { s with quarantine }⟩ with
  | .ok stats c => .ok stats c.shared
  | .error e c => .error e c.shared

end Sanitizer

end GuardedHeap
