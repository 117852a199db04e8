import GuardedHeap.Sanitizer.Client

/-! # Fake frames — locals of threads on their fake stacks

    A frame that the fake stack cannot serve is served from the real
    stack: its address is then that of the real stack, and giving it back
    does nothing. -/

namespace GuardedHeap.Sanitizer.Client

/-- The class and the size of a frame fit. -/
def checkFrame (classId size : Nat) : Except FakeStackError Unit :=
  if classId ≥ FakeStack.classCount then .error (.invalidClass classId)
  else if size > FakeStack.frameSize classId then .error (.frameTooLarge classId size)
  else .ok ()

/-- The sanitizer with another fake stack for a thread. -/
def setFakeStack (owner : Nat) (stack : FakeStack) (s : Sanitizer) : Sanitizer :=
  { s with
    fakeStacks := s.fakeStacks.map fun o => if o.owner = owner then { o with stack } else o }

/-- An action on the fake stack of a thread, which has one. -/
def onFakeStack {α : Type} (owner : Nat) (stack : FakeStack)
    (act : Act FakeStackError FakeStack.View α) : Act FakeStackError Sanitizer α :=
  Act.onPart (fun s => ⟨stack, s.heap.shadow⟩)
    (fun s v => setFakeStack owner v.stack { s with heap := { s.heap with shadow := v.shadow } })
    act

/-- A frame of at least `size` bytes for a function at `realStack`. -/
def allocateFrame (classId size realStack : Nat) : Act FakeStackError Client Nat := do
  Act.ofExcept (checkFrame classId size)
  let t := (← get).thread
  onShared do
    match (← get).fakeStackOf? t.id with
    | none =>
      count .fakeStackFallbacks
      return realStack
    | some stack =>
      let result ← Act.attempt (onFakeStack t.id stack (FakeStack.View.allocate classId realStack))
      let collected := (((← get).fakeStackOf? t.id).map (·.collected)).getD 0
      countBy .fakeFramesCollected (← Word.sub collected stack.collected)
      match result with
      | .ok frame =>
        count .fakeFramesAllocated
        return frame
      | .error (.exhausted _) =>
        count .fakeStackFallbacks
        emit .debug "fake_stack_exhausted" fun e =>
          ((e.withTid t.tid).withSize size).withDetails (.object [("class_id", .nat classId)])
        return realStack
      | .error e => Act.refuse e

/-- Give a frame back. -/
def freeFrame (p classId size realStack : Nat) : Act FakeStackError Client Unit := do
  if p = realStack then
    return
  Act.ofExcept (checkFrame classId size)
  let t := (← get).thread
  onShared do
    let stack ← Act.orRefuse (.notAllocated p) ((← get).fakeStackOf? t.id)
    onFakeStack t.id stack (FakeStack.View.free p classId)
    count .fakeFramesFreed

/-- The thread is about to leave frames without giving them back. -/
def noReturn {ε : Type} : Act ε Client Unit := do
  let t := (← get).thread
  onShared <| modify fun s =>
    match s.fakeStackOf? t.id with
    | some stack => setFakeStack t.id stack.noReturn s
    | none => s

end GuardedHeap.Sanitizer.Client
