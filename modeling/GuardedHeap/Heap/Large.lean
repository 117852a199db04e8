import GuardedHeap.Chunk
import GuardedHeap.Heap.Spans
import GuardedHeap.Pages

/-! # Large blocks — one mapping each, chained in a list

    A block too large for a size class gets a mapping of its own in the
    secondary range: whole pages for the block, a page in front of it for
    its header, and slack if the alignment is larger than a page.  The
    header holds the record of the chunk and the links to the neighbours
    in the list of live blocks, newest first. -/

namespace GuardedHeap

/-- A live large block with its header. -/
structure LargeBlock where
  /-- The first byte of the block. -/
  user : Nat
  /-- The number of bytes asked for. -/
  size : Nat
  /-- Where the mapping begins. -/
  mapBegin : Nat
  mapSize : Nat
  /-- The header of the block before in the list, zero if there is none. -/
  prev : Nat
  /-- The header of the block after in the list, zero if there is none. -/
  next : Nat
  record : ChunkRecord
  deriving DecidableEq, Repr

namespace LargeBlock

/-- The address of the header. -/
def header (b : LargeBlock) : Nat :=
  b.user - Pages.pageSize

/-- The address after the pages of the block. -/
def past (b : LargeBlock) : Nat :=
  b.user + Word.roundUp b.size Pages.pageSize

/-- The mapping covers the address, up to the end of the block. -/
def contains (b : LargeBlock) (p : Nat) : Bool :=
  b.mapBegin ≤ p && p < b.past

end LargeBlock

/-- The secondary range and its live blocks. -/
structure Large where
  begin : Nat
  past : Nat
  spans : Spans
  /-- The live blocks in the order of their links. -/
  blocks : List LargeBlock := []
  /-- The header of the newest live block, zero if there is none. -/
  head : Nat := 0
  /-- The number of live blocks. -/
  count : Nat := 0
  /-- The bytes of their mappings. -/
  totalMapped : Nat := 0
  deriving DecidableEq, Repr

namespace Large

/-- Where in the header page the record of the chunk lies. -/
def recordOffset : Nat := 64

/-- The secondary range `[begin, begin + size)`, all free. -/
def new (begin size : Nat) : Large where
  begin
  past := begin + size
  spans := Spans.new begin (begin + size)

/-- Put a block at the front of the list. -/
def link (l : Large) (b : LargeBlock) : Large :=
  let rest :=
    match l.blocks with
    | [] => []
    | first :: others => { first with prev := b.header } :: others
  {
    l with
    blocks := { b with prev := 0, next := l.head } :: rest
    head := b.header
    count := l.count + 1
    totalMapped := l.totalMapped + b.mapSize
  }

/-- Join the neighbours of the block `b`. -/
def bridge (b c : LargeBlock) : LargeBlock :=
  let c := if b.prev ≠ 0 ∧ c.header = b.prev then { c with next := b.next } else c
  if b.next ≠ 0 ∧ c.header = b.next then { c with prev := b.prev } else c

/-- Take the block `b` out of the list. -/
def unlink (l : Large) (b : LargeBlock) : Large :=
  {
    l with
    blocks := (l.blocks.filter (·.user ≠ b.user)).map (bridge b)
    head := if b.prev ≠ 0 then l.head else b.next
    count := l.count - 1
    totalMapped := l.totalMapped - b.mapSize
  }

/-- The live block that begins at `p`; `p` must be an address where one can begin. -/
def blockAt? (l : Large) (p : Nat) : Option LargeBlock :=
  if p % Pages.pageSize = 0 ∧ l.begin + Pages.pageSize ≤ p ∧ p < l.past then
    l.blocks.find? (·.user == p)
  else none

/-- A live block begins at `p`. -/
def isMine (l : Large) (p : Nat) : Bool :=
  (l.blockAt? p).isSome

/-- The live block whose mapping covers `p`, up to the end of the block. -/
def find? (l : Large) (p : Nat) : Option LargeBlock :=
  if l.begin ≤ p ∧ p < l.past then l.blocks.find? (·.contains p) else none

/-- Where the block begins whose mapping covers `p`. -/
def blockBegin? (l : Large) (p : Nat) : Option Nat :=
  (l.find? p).map (·.user)

/-- The record of the block that begins at `p`. -/
def record? (l : Large) (p : Nat) : Option ChunkRecord :=
  (l.blockAt? p).map (·.record)

/-- Change the record of the block that begins at `p`. -/
def setRecord (l : Large) (p : Nat) (r : ChunkRecord) : Large :=
  { l with blocks := l.blocks.map fun b => if b.user = p then { b with record := r } else b }

/-- The address of the record of the block that begins at `p`. -/
def recordAddr (p : Nat) : Nat :=
  p - Pages.pageSize + recordOffset

/-- The number of bytes of the block that begins at `p`. -/
def actualSize? (l : Large) (p : Nat) : Option Nat :=
  match l.find? p with
  | some b => if b.user = p then some (Word.roundUp b.size Pages.pageSize) else none
  | none => none

end Large

end GuardedHeap
