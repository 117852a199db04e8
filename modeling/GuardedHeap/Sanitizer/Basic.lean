import GuardedHeap.EventLog.Basic
import GuardedHeap.FakeStack
import GuardedHeap.Metrics
import GuardedHeap.Redzone.Basic

/-! # Sanitizers — a heap with all that watches over it

    A `Sanitizer` is the whole shared state: the heap with its redzones,
    the quarantine, the fake stacks, the threads that use them, counters
    and the event log.  Stack traces come from outside and are only
    numbers here. -/

namespace GuardedHeap

/-- A sanitizer refused. -/
inductive SanitizerError where
  | config (error : ConfigError)
  | alloc (error : AllocError)
  | free (error : FreeError)
  | shadow (error : ShadowError)
  | fakeStack (error : FakeStackError)
  deriving DecidableEq, Repr

/-- The wording of an error. -/
def SanitizerError.message : SanitizerError → String
  | .config error => error.message
  | .alloc error => error.message
  | .free error => error.message
  | .shadow error => error.message
  | .fakeStack error => error.message

/-- Where stack traces come from: the id of the trace, of at most `maxFrames` frames, that is taken after
    `captures` others. -/
def StackCapture : Type :=
  (maxFrames captures : Nat) → StackId

namespace StackCapture

/-- There are no traces. -/
def absent : StackCapture := fun _ _ => 0

/-- Always the same trace. -/
def fixed (id : StackId) : StackCapture := fun _ _ => id

/-- One trace after the other. -/
def counter : StackCapture := fun _ captures => (captures + 1) % Word.halfLimit

/-- The number of frames asked for. -/
def frames : StackCapture := fun maxFrames _ => maxFrames % Word.halfLimit

end StackCapture

/-- A registered thread. -/
structure Thread where
  /-- How many registrations came before. -/
  id : Nat
  /-- The small blocks at hand. -/
  cache : Cache
  /-- The freed chunks that have not joined the quarantine yet. -/
  batch : Quarantine.Batch := {}
  deriving DecidableEq, Repr

/-- The number of threads that a thread number can tell apart. -/
def Thread.tidLimit : Nat := Word.halfLimit

/-- The number of a thread, as records show it. -/
def Thread.tid (t : Thread) : Nat :=
  t.id % tidLimit

/-- A fake stack and the thread that it belongs to. -/
structure OwnedStack where
  owner : Nat
  stack : FakeStack
  deriving Repr

/-- The state that all threads share. -/
structure Sanitizer where
  config : Config
  heap : Heap
  quarantine : Quarantine
  /-- The fake stacks of threads, oldest first. -/
  fakeStacks : List OwnedStack := []
  /-- The registered threads. -/
  threads : List Thread := []
  /-- How many registrations there were. -/
  registrations : Nat := 0
  metrics : Metrics := {}
  log : EventLog
  /-- The moment that the wall clock shows; none if it does not show one. -/
  clock : Option Calendar.Moment
  capture : StackCapture := .absent
  /-- How many stack traces were taken. -/
  captures : Nat := 0
  exitCode : Int

namespace Sanitizer

open EventLog (Level Entry)

/-! ## The event log -/

/-- Log an event of a moment with more told about it. -/
def note (now : Calendar.Moment) (level : Level) (event : String) (more : Entry → Entry)
    (s : Sanitizer) : Sanitizer :=
  { s with log := s.log.emit (more (Entry.new now level event)) }

/-- Log an event.  The entry is made, and so the clock has to show a moment, even if the level
    does not reach the threshold. -/
def emit {ε : Type} (level : Level) (event : String) (more : Entry → Entry) :
    Act ε Sanitizer Unit := do
  let now ← Act.orStop (← get).clock
  modify (note now level event more)

/-- Count one more. -/
def count {ε : Type} (c : Counter) : Act ε Sanitizer Unit :=
  modify fun s => { s with metrics := s.metrics.inc c }

/-- Count `amount` more. -/
def countBy {ε : Type} (c : Counter) (amount : Nat) : Act ε Sanitizer Unit :=
  modify fun s => { s with metrics := s.metrics.add c amount }

/-! ## Stack traces -/

/-- Take a stack trace. -/
def takeTrace {ε : Type} : Act ε Sanitizer StackId :=
  modifyGet fun s =>
    (s.capture s.config.mallocContextSize s.captures, { s with captures := s.captures + 1 })

/-- Where a call of a thread comes from: a trace is taken only if none is given. -/
def origin {ε : Type} (tid : Nat) (stack : StackId) : Act ε Sanitizer Origin := do
  let stack ← if stack = 0 then takeTrace else pure stack
  return { stack, tid }

/-! ## Beginning -/

/-- A sanitizer for a configuration, made at a moment. -/
def init (config : Config) (log : EventLog) (capture : StackCapture) (now : Calendar.Moment) :
    Act SanitizerError Pages Sanitizer := do
  match config.validate with
  | .error e => Act.refuse (.config e)
  | .ok () => pure ()
  let heap ← Act.mapError .alloc <|
    Heap.create config.sizeClasses config.regionSizeLog config.secondarySpaceLog
  let s : Sanitizer := {
    config
    heap
    quarantine := Quarantine.new config.quarantineSize config.threadQuarantineSize
    log
    clock := some now
    capture
    exitCode := config.exitcode
  }
  return s.note now .info "runtime_init" (·.withDetails (.object
    [("space_beg", .str (Text.hex heap.space.begin)),
      ("space_end", .str (Text.hex heap.space.endAddr)),
      ("size_classes", .nat heap.classes.count),
      ("redzone", .nat config.redzone),
      ("quarantine_size", .nat config.quarantineSize)]))

/-! ## Questions -/

/-- The registered thread with an id. -/
def thread? (s : Sanitizer) (id : Nat) : Option Thread :=
  s.threads.find? (·.id == id)

/-- The fake stack of a thread. -/
def fakeStackOf? (s : Sanitizer) (id : Nat) : Option FakeStack :=
  (s.fakeStacks.find? (·.owner == id)).map (·.stack)

/-- The frame of a registered fake stack that an address lies in. -/
def frameAt? (s : Sanitizer) (addr : Nat) : Option FakeFrame :=
  s.fakeStacks.findSome? (·.stack.frameAt? addr)

/-- A user has a chunk that begins at `p`. -/
def owns (s : Sanitizer) (p : Nat) : Bool :=
  (s.heap.usableSize? p).isSome

/-- The number of bytes that a user asked for at `p`, zero if there is no such chunk. -/
def allocatedSize (s : Sanitizer) (p : Nat) : Nat :=
  (s.heap.usableSize? p).getD 0

/-- The size that a chunk of `size` bytes has for its user. -/
def estimatedSize (size : Nat) : Nat :=
  size

/-- The byte at `addr` must not be accessed; what is not tracked may be. -/
def isPoisoned (s : Sanitizer) (addr : Nat) : Checked Bool :=
  match s.heap.shadow.isPoisoned addr with
  | .ok b => .ok b
  | .error (.refused _) => .ok false
  | .error .stopped => .error .overrun

/-- A failed call ends the process, unless the option says that wrong frees do not. -/
def isFatal (s : Sanitizer) : SanitizerError → Bool
  | .free (.doubleFree ..) => s.config.haltOnFreeError
  | .free (.allocDeallocMismatch ..) => s.config.haltOnFreeError
  | _ => true

/-! ## Numbers -/

/-- What is measured on the heap. -/
def gauges (s : Sanitizer) : Gauges where
  heapSize := s.heap.totalUsed
  quarantineBytes := s.quarantine.bytes
  quarantineChunks := s.quarantine.queue.length
  liveLargeChunks := s.heap.large.count

/-- Counters and gauges. -/
def stats (s : Sanitizer) : Stats where
  counters := s.metrics
  gauges := s.gauges

/-- Log the counters and gauges. -/
def emitStats {ε : Type} : Act ε Sanitizer Stats := do
  let stats := (← get).stats
  emit .info "stats" (·.withDetails stats.toJson)
  return stats

/-- Log the counters and gauges and return them as text. -/
def reportStats {ε : Type} : Act ε Sanitizer String := do
  return (← emitStats).text

/-- Change the code that a dying process exits with; returns the code before. -/
def setExitCode {ε : Type} (code : Int) : Act ε Sanitizer Int :=
  modifyGet fun s => (s.exitCode, { s with exitCode := code })

/-! ## User poisoning -/

/-- Let a user change the shadow, if the options allow it. -/
def userMark (mark : Act ShadowError Shadow Unit) : Act ShadowError Sanitizer Unit := do
  if !(← get).config.allowUserPoisoning then
    return
  count .userPoisonCalls
  Act.onPart (·.heap) (fun s heap => { s with heap }) (Heap.onShadow id mark)

/-- Poison `[addr, addr + size)` for a user. -/
def poisonRegion (addr size : Nat) : Act ShadowError Sanitizer Unit :=
  userMark (Shadow.poisonUser addr size)

/-- Make `[addr, addr + size)` accessible for a user. -/
def unpoisonRegion (addr size : Nat) : Act ShadowError Sanitizer Unit :=
  userMark (Shadow.unpoisonUser addr size)

end Sanitizer

end GuardedHeap
