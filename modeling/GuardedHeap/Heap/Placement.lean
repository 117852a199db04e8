import GuardedHeap.Report.Record

/-! # Placement — what a heap knows about an address

    Which side an address belongs to, the block that it lies in, and the
    record of that block.  The block of an address is the one that holds
    it, whether or not it is allocated. -/

namespace GuardedHeap

/-- What a heap knows about an address. -/
structure Placement where
  isMine : Bool
  block : Option Nat
  kind : BlockClass
  recordAddr : Option Nat
  actualSize : Option Nat
  state : Option ChunkState
  isPrimary : Bool
  slot : Option Slot
  isSecondary : Bool
  large : Option LargeBlock

/-- What the heap knows about `addr`. -/
def Heap.placement (h : Heap) (addr : Nat) : Placement where
  isMine := h.isMine addr
  block := h.blockBegin? addr
  kind := h.blockClass addr
  recordAddr := h.recordAddr? addr
  actualSize := h.actualSize? addr
  state := (h.record? addr).map (·.state)
  isPrimary := h.isPrimary addr
  slot := h.locate? addr
  isSecondary := h.large.isMine addr
  large := h.large.find? addr

/-- Words as JSON. -/
def Json.nats (ns : List Nat) : Json :=
  .arr (ns.map .nat)

/-- A placement as JSON. -/
def Placement.toJson (p : Placement) : Json :=
  .object
    [("mine", .bool p.isMine), ("block", Json.option .nat p.block), ("class", p.kind.toJson),
      ("meta_addr", Json.option .nat p.recordAddr), ("actual", Json.option .nat p.actualSize),
      ("state", Json.option (.str ·.name) p.state), ("primary", .bool p.isPrimary),
      ("slot", Json.option (fun s => .nats [s.classId, s.slot]) p.slot),
      ("secondary", .bool p.isSecondary),
      ("large", Json.option (fun b => .nats [b.user, b.size, b.mapBegin, b.mapSize]) p.large)]

/-- The bytes `[addr, addr + size)` lie inside one block. -/
def Heap.isInsideBlock (h : Heap) (addr size : Nat) : Bool :=
  match h.blockBegin? addr with
  | none => false
  | some block => decide (block ≤ addr ∧ addr + size ≤ block + (h.actualSize? block).getD 0)

end GuardedHeap
