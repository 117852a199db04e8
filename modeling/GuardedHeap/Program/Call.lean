import GuardedHeap.Program.Basic

/-! # Calls — what a program can ask of the sanitizer

    These are the entry points that compiled programs use.  Allocation
    that fails is fatal, and so are wrong frees, though double frees and
    mismatches only while the options say so. -/

namespace GuardedHeap

/-- A call of a program. -/
inductive Call where
  | malloc (size : Nat)
  | calloc (times size : Nat)
  | realloc (addr size : Nat)
  | memalign (alignment size : Nat)
  | new (size : Nat)
  | newArray (size : Nat)
  | allocateChunk (size alignment : Nat) (stack : StackId)
  | free (addr : Nat)
  | freeChunk (addr : Nat) (stack : StackId)
  | delete (addr : Nat)
  | deleteArray (addr : Nat)
  | allocateFrame (classId size realStack : Nat)
  | freeFrame (addr classId size realStack : Nat)
  | noReturn
  | poison (addr size : Nat)
  | unpoison (addr size : Nat)
  | isPoisoned (addr : Nat)
  | reportError (addr : Nat) (isWrite : Bool) (size : Nat)
  | setExitCode (code : Int)
  | setCallback (callback : Option DeathCallback)
  | estimatedSize (size : Nat)
  | owns (addr : Nat)
  | allocatedSize (addr : Nat)
  | currentBytes
  | heapSize
  | freeBytes
  | printStats
  deriving DecidableEq, Repr

/-- What a call returns. -/
inductive Call.Answer where
  | unit
  | addr (a : Nat)
  | nat (n : Nat)
  | int (i : Int)
  | bool (b : Bool)
  deriving DecidableEq, Repr

namespace Program

open Call (Answer)

/-- The alignment of chunks whose caller asks for none. -/
def minAlignment : Nat := 8

/-- Allocate, or die. -/
def allocate (thread size alignment : Nat) (api : Api) (stack : StackId) :
    Act Exit Program Answer := do
  match ← asThread thread (Sanitizer.Client.allocate size alignment api stack) with
  | .ok p => return .addr p
  | .error e => dieOf (.alloc e)

/-- Free; die if that is fatal. -/
def free (thread addr : Nat) (api : Api) (stack : StackId) : Act Exit Program Answer := do
  match ← asThread thread (Sanitizer.Client.free addr api stack) with
  | .ok () => return .unit
  | .error e => if (← sanitizer).isFatal e then dieOf e else return .unit

/-- Carry out a call of a thread. -/
def perform (thread : Nat) : Call → Act Exit Program Answer
  | .malloc size => allocate thread size minAlignment .malloc 0
  | .memalign alignment size => allocate thread size alignment .malloc 0
  | .new size => allocate thread size minAlignment .new 0
  | .newArray size => allocate thread size minAlignment .newArray 0
  | .allocateChunk size alignment stack => allocate thread size alignment .malloc stack
  | .calloc times size => do
    match ← asThread thread (Sanitizer.Client.calloc times size) with
    | .ok p => return .addr p
    | .error e => dieOf (.alloc e)
  | .realloc addr size => do
    match ← asThread thread (Sanitizer.Client.reallocate addr size) with
    | .ok p => return .addr p
    | .error e => if (← sanitizer).isFatal e then dieOf e else return .addr 0
  | .free addr => free thread addr .malloc 0
  | .freeChunk addr stack => free thread addr .malloc stack
  | .delete addr => free thread addr .new 0
  | .deleteArray addr => free thread addr .newArray 0
  | .allocateFrame classId size realStack => do
    match ← asThread thread (Sanitizer.Client.allocateFrame classId size realStack) with
    | .ok p => return .addr p
    | .error e => dieOf (.fakeStack e)
  | .freeFrame addr classId size realStack => do
    match ← asThread thread (Sanitizer.Client.freeFrame addr classId size realStack) with
    | .ok () => return .unit
    | .error e => dieOf (.fakeStack e)
  | .noReturn => do
    let _ ← asThread thread (Sanitizer.Client.noReturn : Act Empty _ _)
    return .unit
  | .poison addr size => do
    -- Only the heap has a shadow; other ranges are left alone.
    let _ ← onSanitizer (Sanitizer.poisonRegion addr size)
    return .unit
  | .unpoison addr size => do
    let _ ← onSanitizer (Sanitizer.unpoisonRegion addr size)
    return .unit
  | .isPoisoned addr => return .bool (← (← sanitizer).isPoisoned addr)
  | .reportError addr isWrite size => do
    let id ← registration thread
    let report ←
      onSanitizerSafely (Sanitizer.classify (id % Thread.tidLimit) addr isWrite size)
    terminate (Sanitizer.wordsOfReport report)
  | .setExitCode code => return .int (← onSanitizerSafely (Sanitizer.setExitCode code))
  | .setCallback callback => do
    let _ ← sanitizer
    modify fun p => { p with callback }
    return .unit
  | .estimatedSize size => do
    let _ ← sanitizer
    return .nat (Sanitizer.estimatedSize size)
  | .owns addr => return .nat ((← sanitizer).owns addr).toNat
  | .allocatedSize addr => return .nat ((← sanitizer).allocatedSize addr)
  | .currentBytes => return .nat (← sanitizer).metrics.currentAllocatedBytes
  | .heapSize => return .nat (← sanitizer).heap.totalUsed
  | .freeBytes => return .nat (← sanitizer).stats.freeBytes
  | .printStats => do
    let text ← onSanitizerSafely Sanitizer.reportStats
    say (text ++ "\n")
    return .unit

end Program

end GuardedHeap
