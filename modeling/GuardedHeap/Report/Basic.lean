import GuardedHeap.FakeStack
import GuardedHeap.Redzone.Basic
import GuardedHeap.Report.Kind
import GuardedHeap.Shadow.Window

/-! # Bug reports — a bad access and all that is known about it

    A report is made from the state and changes nothing.  The shadow byte
    that explains the access gives its kind; the frame or the chunk that
    the address belongs to describes it; a window shows the shadow around
    it. -/

namespace GuardedHeap

/-- A memory access. -/
structure AccessRequest where
  addr : Nat
  size : Nat
  isWrite : Bool
  deriving DecidableEq, Repr

/-- Where an address lies as seen from a user's bytes. -/
inductive Relation where
  | left
  | inside
  | right
  deriving DecidableEq, Repr

/-- The name of a relation. -/
def Relation.name : Relation → String
  | left => "left"
  | inside => "inside"
  | right => "right"

/-- An address as seen from a chunk. -/
structure HeapLocation where
  chunk : Chunk
  /-- How far the address lies behind the user's first byte. -/
  offset : Int
  relation : Relation
  /-- How far the address lies outside the user's bytes, or from the first one inside. -/
  distance : Nat
  deriving DecidableEq, Repr

/-- The location of an address as seen from a chunk. -/
def HeapLocation.of (chunk : Chunk) (addr : Nat) : Checked HeapLocation := do
  let begin := chunk.record.userBegin
  let offset := Word.toSigned (Word.wrapSub addr begin)
  if addr < begin then
    return { chunk, offset, relation := .left, distance := begin - addr }
  let past ← chunk.userEnd
  if addr ≥ past then
    return { chunk, offset, relation := .right, distance := addr - past }
  return { chunk, offset, relation := .inside, distance := addr - begin }

/-- What an address belongs to. -/
inductive Description where
  | heap (location : HeapLocation)
  | fakeFrame (frame : FakeFrame) (offset : Nat)
  deriving DecidableEq, Repr

/-- A report of a bad access. -/
structure Report where
  kind : BugKind
  access : AccessRequest
  threadId : Nat
  accessStack : StackId
  /-- The shadow byte that explains the access, zero if none does. -/
  shadowByte : UInt8
  description : Option Description
  window : Option Shadow.Window
  deriving DecidableEq, Repr

namespace Report

/-- The frame that an address lies in, in the first stack that has it. -/
def frameAt? (fakeStacks : List FakeStack) (addr : Nat) : Option FakeFrame :=
  fakeStacks.findSome? (·.frameAt? addr)

/-- What an address belongs to: a frame of a fake stack, or else a chunk. -/
def describe (heap : Heap) (fakeStacks : List FakeStack) (addr : Nat) :
    Checked (Option Description) := do
  match frameAt? fakeStacks addr with
  | some frame => return some (.fakeFrame frame (← Word.sub addr frame.addr))
  | none =>
    match ← heap.findChunk addr with
    | some chunk => return some (.heap (← HeapLocation.of chunk addr))
    | none => return none

/-- The report of an access by a thread. -/
def classify (heap : Heap) (fakeStacks : List FakeStack) (access : AccessRequest)
    (threadId : Nat) (accessStack : StackId) : Checked Report := do
  let byte ← heap.shadow.explaining access.addr access.size
  return {
    kind := BugKind.ofShadow? byte
    access
    threadId
    accessStack
    shadowByte := byte.getD 0
    description := ← describe heap fakeStacks access.addr
    window := ← heap.shadow.window access.addr
  }

end Report

end GuardedHeap
