import GuardedHeap.Json.Basic
import GuardedHeap.Word

/-! # Metrics — what a heap has done so far

    Counters only ever go up, modulo the word.  A snapshot puts them
    beside the gauges of the heap; what it derives from the two never goes
    below zero. -/

namespace GuardedHeap

/-- The things that are counted. -/
inductive Counter where
  | mallocs
  | frees
  | reallocs
  | bytesAllocated
  | bytesFreed
  | recycledChunks
  | recycledBytes
  | allocDeallocMismatches
  | doubleFrees
  | invalidFrees
  | fakeFramesAllocated
  | fakeFramesFreed
  | fakeFramesCollected
  | fakeStackFallbacks
  | userPoisonCalls
  deriving DecidableEq, Repr

namespace Counter

/-- Every counter. -/
def all : List Counter :=
  [mallocs, frees, reallocs, bytesAllocated, bytesFreed, recycledChunks, recycledBytes,
    allocDeallocMismatches, doubleFrees, invalidFrees, fakeFramesAllocated, fakeFramesFreed,
    fakeFramesCollected, fakeStackFallbacks, userPoisonCalls]

/-- The name of a counter. -/
def name : Counter → String
  | mallocs => "mallocs"
  | frees => "frees"
  | reallocs => "reallocs"
  | bytesAllocated => "bytes_allocated"
  | bytesFreed => "bytes_freed"
  | recycledChunks => "recycled_chunks"
  | recycledBytes => "recycled_bytes"
  | allocDeallocMismatches => "alloc_dealloc_mismatches"
  | doubleFrees => "double_frees"
  | invalidFrees => "invalid_frees"
  | fakeFramesAllocated => "fake_frames_allocated"
  | fakeFramesFreed => "fake_frames_freed"
  | fakeFramesCollected => "fake_frames_collected"
  | fakeStackFallbacks => "fake_stack_fallbacks"
  | userPoisonCalls => "user_poison_calls"

/-- The counter of a name. -/
def ofName? (s : String) : Option Counter :=
  all.find? (·.name == s)

end Counter

/-- The value of every counter. -/
structure Metrics where
  mallocs : Nat := 0
  frees : Nat := 0
  reallocs : Nat := 0
  bytesAllocated : Nat := 0
  bytesFreed : Nat := 0
  recycledChunks : Nat := 0
  recycledBytes : Nat := 0
  allocDeallocMismatches : Nat := 0
  doubleFrees : Nat := 0
  invalidFrees : Nat := 0
  fakeFramesAllocated : Nat := 0
  fakeFramesFreed : Nat := 0
  fakeFramesCollected : Nat := 0
  fakeStackFallbacks : Nat := 0
  userPoisonCalls : Nat := 0
  deriving DecidableEq, Repr

namespace Metrics

/-- The value of one counter. -/
def value (m : Metrics) : Counter → Nat
  | .mallocs => m.mallocs
  | .frees => m.frees
  | .reallocs => m.reallocs
  | .bytesAllocated => m.bytesAllocated
  | .bytesFreed => m.bytesFreed
  | .recycledChunks => m.recycledChunks
  | .recycledBytes => m.recycledBytes
  | .allocDeallocMismatches => m.allocDeallocMismatches
  | .doubleFrees => m.doubleFrees
  | .invalidFrees => m.invalidFrees
  | .fakeFramesAllocated => m.fakeFramesAllocated
  | .fakeFramesFreed => m.fakeFramesFreed
  | .fakeFramesCollected => m.fakeFramesCollected
  | .fakeStackFallbacks => m.fakeStackFallbacks
  | .userPoisonCalls => m.userPoisonCalls

/-- The metrics with one counter set to `n`. -/
def setValue (m : Metrics) (n : Nat) : Counter → Metrics
  | .mallocs => { m with mallocs := n }
  | .frees => { m with frees := n }
  | .reallocs => { m with reallocs := n }
  | .bytesAllocated => { m with bytesAllocated := n }
  | .bytesFreed => { m with bytesFreed := n }
  | .recycledChunks => { m with recycledChunks := n }
  | .recycledBytes => { m with recycledBytes := n }
  | .allocDeallocMismatches => { m with allocDeallocMismatches := n }
  | .doubleFrees => { m with doubleFrees := n }
  | .invalidFrees => { m with invalidFrees := n }
  | .fakeFramesAllocated => { m with fakeFramesAllocated := n }
  | .fakeFramesFreed => { m with fakeFramesFreed := n }
  | .fakeFramesCollected => { m with fakeFramesCollected := n }
  | .fakeStackFallbacks => { m with fakeStackFallbacks := n }
  | .userPoisonCalls => { m with userPoisonCalls := n }

/-- Count `amount` more. -/
def add (m : Metrics) (c : Counter) (amount : Nat) : Metrics :=
  m.setValue (Word.wrapAdd (m.value c) amount) c

/-- Count one more. -/
def inc (m : Metrics) (c : Counter) : Metrics :=
  m.add c 1

/-- The bytes that were allocated and not freed. -/
def currentAllocatedBytes (m : Metrics) : Nat :=
  m.bytesAllocated - m.bytesFreed

theorem value_setValue (m : Metrics) (n : Nat) (c d : Counter) :
    (m.setValue n c).value d = if d = c then n else m.value d := by
  cases c <;> cases d <;> rfl

theorem value_add (m : Metrics) (c d : Counter) (amount : Nat) :
    (m.add c amount).value d =
      if d = c then Word.wrapAdd (m.value c) amount else m.value d :=
  value_setValue m _ c d

end Metrics

/-- What is measured on the heap itself. -/
structure Gauges where
  heapSize : Nat := 0
  quarantineBytes : Nat := 0
  quarantineChunks : Nat := 0
  liveLargeChunks : Nat := 0
  deriving DecidableEq, Repr

/-- Counters and gauges at one moment. -/
structure Stats where
  counters : Metrics
  gauges : Gauges

namespace Stats

/-- The count of one thing. -/
def count (s : Stats) (c : Counter) : Nat :=
  s.counters.value c

/-- The bytes in use. -/
def currentAllocatedBytes (s : Stats) : Nat :=
  s.counters.currentAllocatedBytes

/-- The bytes of the heap that are neither in use nor quarantined. -/
def freeBytes (s : Stats) : Nat :=
  s.gauges.heapSize - s.currentAllocatedBytes - s.gauges.quarantineBytes

/-- The snapshot as a JSON object. -/
def toJson (s : Stats) : Json :=
  Json.object <|
    (Counter.all.map fun c => (c.name, Json.nat (s.count c))) ++
    [("current_allocated_bytes", .nat s.currentAllocatedBytes),
      ("heap_size", .nat s.gauges.heapSize),
      ("free_bytes", .nat s.freeBytes),
      ("quarantine_bytes", .nat s.gauges.quarantineBytes),
      ("quarantine_chunks", .nat s.gauges.quarantineChunks),
      ("live_large_chunks", .nat s.gauges.liveLargeChunks)]

/-- The snapshot as lines of text. -/
def text (s : Stats) : String :=
  s!"Stats: {s.count .mallocs} mallocs, {s.count .frees} frees, {s.count .reallocs} reallocs\n" ++
    s!"Stats: {s.count .bytesAllocated} bytes allocated, {s.count .bytesFreed} bytes freed, " ++
    s!"{s.currentAllocatedBytes} bytes in use\n" ++
    s!"Stats: heap {s.gauges.heapSize} bytes, free {s.freeBytes} bytes, " ++
    s!"quarantine {s.gauges.quarantineBytes} bytes in {s.gauges.quarantineChunks} chunks, " ++
    s!"{s.gauges.liveLargeChunks} large chunks\n" ++
    s!"Stats: recycled {s.count .recycledChunks} chunks ({s.count .recycledBytes} bytes)\n" ++
    s!"Stats: fake frames {s.count .fakeFramesAllocated} allocated, " ++
    s!"{s.count .fakeFramesFreed} freed, {s.count .fakeFramesCollected} collected, " ++
    s!"{s.count .fakeStackFallbacks} fallbacks"

end Stats

end GuardedHeap
