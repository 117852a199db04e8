import GuardedHeap.Program.Call

/-! # Memory — a program reads and writes its chunks

    Only memory that the program holds is touched: the access must begin
    where a live chunk begins and stay inside it.  Asking for that builds
    the sanitizer, like any other call. -/

namespace GuardedHeap.Program

/-- A live chunk of at least `size` bytes begins at `addr`. -/
def holds (addr size : Nat) : Act Exit Program Bool := do
  let s ← sanitizer
  return s.owns addr && decide (size ≤ s.allocatedSize addr)

/-- The first `size` bytes of the chunk at `addr`. -/
def readChunk? (addr size : Nat) : Act Exit Program (Option (List UInt8)) := do
  if ← holds addr size then
    return some ((← sanitizer).heap.pages.read addr size)
  else
    return none

/-- Write `bytes` to the chunk at `addr`; says whether there is one that holds them. -/
def writeChunk (addr : Nat) (bytes : List UInt8) : Act Exit Program Bool := do
  if ← holds addr bytes.length then
    onSanitizerSafely (Sanitizer.onHeap (modify (·.mapPages (·.write addr bytes))))
    return true
  else
    return false

end GuardedHeap.Program
