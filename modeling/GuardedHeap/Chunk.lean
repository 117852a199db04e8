import GuardedHeap.Word

/-! # Chunks — what is recorded about a block

    Every block has one record that lies outside its bytes.  It says which
    part of the block a user got, by which call, from where, and how far
    the block is in its life: recycled, allocated, quarantined, and again
    recycled.  The record of a block that was never handed out is all
    zero. -/

namespace GuardedHeap

/-- The number of a stack trace; zero is no trace. -/
abbrev StackId := Nat

/-- A trace as reports show it. -/
def StackId.text (id : StackId) : String :=
  if id = 0 then "<no stack>" else "stack#" ++ toString (id : Nat)

/-- How far a block is in its life. -/
inductive ChunkState where
  | recycled
  | allocated
  | quarantined
  deriving DecidableEq, Repr, Inhabited

/-- The name of a state. -/
def ChunkState.name : ChunkState → String
  | recycled => "recycled"
  | allocated => "allocated"
  | quarantined => "quarantined"

/-- The state with a name. -/
def ChunkState.ofName? (s : String) : Option ChunkState :=
  [recycled, allocated, quarantined].find? (·.name == s)

/-- The family of calls that a block was allocated by or is freed by. -/
inductive Api where
  | malloc
  | new
  | newArray
  deriving DecidableEq, Repr, Inhabited

namespace Api

/-- The name of a family. -/
def name : Api → String
  | malloc => "malloc"
  | new => "new"
  | newArray => "new_array"

/-- The family with a name. -/
def ofName? (s : String) : Option Api :=
  [malloc, new, newArray].find? (·.name == s)

/-- The call that allocates. -/
def allocName : Api → String
  | malloc => "malloc"
  | new => "operator new"
  | newArray => "operator new []"

/-- The call that frees. -/
def deallocName : Api → String
  | malloc => "free"
  | new => "operator delete"
  | newArray => "operator delete []"

end Api

/-- Where a call came from. -/
structure Origin where
  stack : StackId := 0
  tid : Nat := 0
  deriving DecidableEq, Repr

/-- What a block class is named by: the number of a size class, or large. -/
inductive BlockClass where
  | small (id : Nat)
  | large
  deriving DecidableEq, Repr

/-- The record of a block. -/
structure ChunkRecord where
  state : ChunkState := .recycled
  api : Api := .malloc
  /-- The first byte that the user got. -/
  userBegin : Nat := 0
  /-- The number of bytes that the user asked for. -/
  requestedSize : Nat := 0
  /-- The number of bytes of the block. -/
  actualSize : Nat := 0
  allocated : Origin := {}
  freed : Origin := {}
  deriving DecidableEq, Repr, Inhabited

/-- What is recorded about an allocation. -/
structure Allocation where
  userBegin : Nat
  requestedSize : Nat
  actualSize : Nat
  origin : Origin
  api : Api
  deriving DecidableEq, Repr

namespace ChunkRecord

/-- The record of a block that has been handed out: it tells nothing of an earlier free. -/
def recordAllocation (a : Allocation) : ChunkRecord where
  state := .allocated
  api := a.api
  userBegin := a.userBegin
  requestedSize := a.requestedSize
  actualSize := a.actualSize
  allocated := a.origin
  freed := {}

/-- The record of an allocated block that goes to the quarantine; otherwise the state that
    keeps it from going. -/
def quarantine (r : ChunkRecord) : Except ChunkState ChunkRecord :=
  if r.state = .allocated then .ok { r with state := .quarantined } else .error r.state

/-- The record with the origin of the call that freed the block. -/
def recordFree (r : ChunkRecord) (origin : Origin) : ChunkRecord :=
  { r with freed := origin }

/-- The record of a block that may be handed out again. -/
def recycle (r : ChunkRecord) : ChunkRecord :=
  { r with state := .recycled }

end ChunkRecord

/-- A block with its record. -/
structure Chunk where
  block : Nat
  kind : BlockClass
  record : ChunkRecord
  deriving DecidableEq, Repr

namespace Chunk

/-- The address after the last byte that the user got. -/
def userEnd (c : Chunk) : Checked Nat :=
  Word.add c.record.userBegin c.record.requestedSize

/-- The address after the block. -/
def blockEnd (c : Chunk) : Checked Nat :=
  Word.add c.block c.record.actualSize

/-- The block is not recycled. -/
def isLive (c : Chunk) : Bool :=
  c.record.state != .recycled

end Chunk

end GuardedHeap
