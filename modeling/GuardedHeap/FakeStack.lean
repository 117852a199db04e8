import GuardedHeap.Heap.LargeBlocks

/-! # Fake stacks — frames that outlive their functions

    A function may keep its locals in a frame of a fake stack, which lies
    in a large block.  A frame given back is poisoned, so that a pointer
    kept into it is found out.  There are eleven classes of frames, each
    with a range of its own and frames twice as large as the class before.

    A function left without a return does not give its frames back.  The
    next allocation then collects every frame whose owner lies deeper in
    the real stack, which grows downward, than the function that now
    allocates. -/

namespace GuardedHeap

/-- A fake stack refused. -/
inductive FakeStackError where
  | invalidClass (classId : Nat)
  | invalidSizeLog (log : Nat)
  /-- All frames of the class are claimed. -/
  | exhausted (classId : Nat)
  | notAllocated (addr : Nat)
  | frameTooLarge (classId size : Nat)
  | alloc (error : AllocError)
  | shadow (error : ShadowError)
  deriving DecidableEq, Repr

/-- The wording of a fake stack error. -/
def FakeStackError.message : FakeStackError → String
  | .invalidClass classId => s!"fake stack class {classId} does not exist"
  | .invalidSizeLog log => s!"fake stack size log {log} outside 16..=28"
  | .exhausted classId => s!"fake stack class {classId} has no free frame"
  | .notAllocated addr => s!"fake frame {Text.hex addr} is not allocated"
  | .frameTooLarge classId size =>
    s!"frame of {size} bytes does not fit fake stack class {classId}"
  | .alloc error => error.message
  | .shadow error => error.message

/-- A frame as it is found by an address in it. -/
structure FakeFrame where
  addr : Nat
  classId : Nat
  slot : Nat
  /-- The real stack address of the function that claimed the frame last. -/
  realStack : Nat
  allocated : Bool
  deriving DecidableEq, Repr

/-- The frames of one class. -/
structure FrameClass where
  /-- The number of frames. -/
  frames : Nat
  /-- Which frames are claimed. -/
  claimed : RangeMap Bool := .const false
  /-- The real stack address of the last owner of each frame. -/
  owner : RangeMap Nat := .const 0
  /-- Where the search for a free frame begins, modulo the number of frames. -/
  hint : Nat := 0
  /-- Some frame has been claimed at some time. -/
  used : Bool := false
  deriving Repr, Inhabited

/-- A fake stack. -/
structure FakeStack where
  begin : Nat
  /-- Each class has a range of `2 ^ sizeLog` bytes. -/
  sizeLog : Nat
  classes : Array FrameClass
  /-- The next allocation collects abandoned frames first. -/
  needsGc : Bool := false
  /-- The number of frames collected so far. -/
  collected : Nat := 0
  deriving Repr

namespace FakeStack

/-- The number of classes. -/
def classCount : Nat := 11

/-- The logarithm of the smallest frame size. -/
def minFrameSizeLog : Nat := 6

/-- The logarithm of the smallest size of a class range. -/
def minSizeLog : Nat := 16

/-- The logarithm of the largest size of a class range. -/
def maxSizeLog : Nat := 28

/-- The number of bytes of a frame. -/
def frameSize (classId : Nat) : Nat :=
  Word.powerOfTwo (minFrameSizeLog + classId)

/-- The number of bytes of all classes. -/
def totalSize (sizeLog : Nat) : Nat :=
  classCount * Word.powerOfTwo sizeLog

/-- Make a fake stack in a fresh large block; all of its frames are free. -/
def create (sizeLog : Nat) : Act FakeStackError Heap FakeStack := do
  if sizeLog < minSizeLog ∨ maxSizeLog < sizeLog then
    Act.refuse (.invalidSizeLog sizeLog)
  let size := totalSize sizeLog
  let begin ← Act.mapError .alloc (Heap.allocateLarge size Pages.pageSize)
  Heap.onShadow .shadow (Shadow.poison begin size Shadow.Magic.stackAfterReturn.byte)
  return {
    begin
    sizeLog
    classes := (Array.range classCount).map fun classId =>
      { frames := Word.powerOfTwo (sizeLog - minFrameSizeLog - classId) }
  }

/-- Give the block of a fake stack back. -/
def release (f : FakeStack) : Act FakeStackError Heap Unit :=
  Act.mapError .alloc (Heap.freeLarge f.begin)

/-- The address after the frames. -/
def past (f : FakeStack) : Nat :=
  f.begin + totalSize f.sizeLog

/-- The number of frames of a class, zero if there is no such class. -/
def framesInClass (f : FakeStack) (classId : Nat) : Nat :=
  (f.classes[classId]?.map (·.frames)).getD 0

/-- The first address of the range of a class. -/
def classBegin (f : FakeStack) (classId : Nat) : Nat :=
  f.begin + classId * Word.powerOfTwo f.sizeLog

/-- The first address of a frame. -/
def frameAddr (f : FakeStack) (classId slot : Nat) : Nat :=
  f.classBegin classId + slot * frameSize classId

/-- The frame that an address lies in. -/
def frameAt? (f : FakeStack) (addr : Nat) : Option FakeFrame :=
  if f.begin ≤ addr ∧ addr < f.past then
    let classId := (addr - f.begin) / Word.powerOfTwo f.sizeLog
    let slot := (addr - f.classBegin classId) / frameSize classId
    (f.classes[classId]?).map fun c =>
      {
        addr := f.frameAddr classId slot
        classId
        slot
        realStack := c.owner.get slot
        allocated := c.claimed.get slot
      }
  else none

/-- The next allocation shall collect abandoned frames. -/
def noReturn (f : FakeStack) : FakeStack :=
  { f with needsGc := true }

/-! ## Frames on a shadow -/

/-- A fake stack on the shadow that covers it. -/
structure View where
  stack : FakeStack
  shadow : Shadow
  deriving Repr

namespace View

/-- Give a class another state. -/
def setClass (classId : Nat) (c : FrameClass) : Act FakeStackError View Unit :=
  modify fun v =>
    { v with stack := { v.stack with classes := v.stack.classes.setIfInBounds classId c } }

/-- Mark a frame in the shadow. -/
def markFrame (addr classId : Nat) (value : UInt8) : Act FakeStackError View Unit :=
  Act.mapError .shadow <|
    Act.onPart (·.shadow) (fun v shadow => { v with shadow })
      (Shadow.poison addr (frameSize classId) value)

/-- The state of a class; there must be one. -/
def frameClass (classId : Nat) : Act FakeStackError View FrameClass := do
  Act.orRefuse (.invalidClass classId) (← get).stack.classes[classId]?

/-- Poison a claimed frame and make it free. -/
def freeSlot (classId slot : Nat) : Act FakeStackError View Unit := do
  let addr := (← get).stack.frameAddr classId slot
  markFrame addr classId Shadow.Magic.stackAfterReturn.byte
  let c ← frameClass classId
  setClass classId { c with claimed := c.claimed.set slot false }

/-- The claimed frames of a class whose owners lie below `realStack`. -/
def abandoned (c : FrameClass) (realStack : Nat) : List Nat :=
  (c.claimed.indices 0 c.frames id).filter fun slot => c.owner.get slot < realStack

/-- Free some frames of a class and count them. -/
def freeSlots (classId : Nat) : List Nat → Act FakeStackError View Nat
  | [] => pure 0
  | slot :: rest => do
    freeSlot classId slot
    return 1 + (← freeSlots classId rest)

/-- Free the abandoned frames of some classes and count them. -/
def collectClasses (realStack : Nat) : List Nat → Act FakeStackError View Nat
  | [] => pure 0
  | classId :: rest => do
    let c ← frameClass classId
    let freed ← if c.used then freeSlots classId (abandoned c realStack) else pure 0
    return freed + (← collectClasses realStack rest)

/-- Collect every claimed frame whose owner lies below `realStack`. -/
def gc (realStack : Nat) : Act FakeStackError View Nat := do
  let count ← collectClasses realStack (List.range (← get).stack.classes.size)
  modify fun v =>
    { v with stack := { v.stack with collected := Word.wrapAdd v.stack.collected count } }
  return count

/-- The first free frame of a class, from `start` on and around. -/
def freeFrame? (c : FrameClass) (start : Nat) : Option Nat :=
  (c.claimed.find? start c.frames (!·)).or (c.claimed.find? 0 start (!·))

/-- Claim a free frame of a class for the function at `realStack`. -/
def claimFree (classId realStack : Nat) : Act FakeStackError View Nat := do
  let c ← frameClass classId
  match freeFrame? c (c.hint % c.frames) with
  | none =>
    setClass classId { c with hint := Word.wrapAdd c.hint 1 }
    Act.refuse (.exhausted classId)
  | some slot =>
    setClass classId
      { c with
        claimed := c.claimed.set slot true
        owner := c.owner.set slot realStack
        hint := slot + 1
        used := true }
    let addr := (← get).stack.frameAddr classId slot
    markFrame addr classId 0
    return addr

/-- Claim a frame for the function at `realStack`, after abandoned frames were collected if that is due. -/
def allocate (classId realStack : Nat) : Act FakeStackError View Nat := do
  let _ ← frameClass classId
  if (← get).stack.needsGc then
    modify fun v => { v with stack := { v.stack with needsGc := false } }
    let _ ← gc realStack
  claimFree classId realStack

/-- Give the claimed frame of a class at `addr` back. -/
def free (addr classId : Nat) : Act FakeStackError View Unit := do
  let c ← frameClass classId
  let begin := (← get).stack.classBegin classId
  let size := frameSize classId
  if addr < begin ∨ (addr - begin) % size ≠ 0 then
    Act.refuse (.notAllocated addr)
  let slot := (addr - begin) / size
  if slot ≥ c.frames ∨ !c.claimed.get slot then
    Act.refuse (.notAllocated addr)
  freeSlot classId slot

end View

end FakeStack

end GuardedHeap
