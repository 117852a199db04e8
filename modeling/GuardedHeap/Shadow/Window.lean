import GuardedHeap.Shadow.Basic

/-! # Shadow windows — the shadow bytes around an address

    A report shows nine rows of eight shadow bytes, the address in the
    middle one.  Rows begin at shadow addresses that are multiples of
    eight; what lies outside the tracked range is cut off. -/

namespace GuardedHeap.Shadow

/-- A contiguous piece of the shadow. -/
structure Window where
  /-- The address of the first shadow byte shown. -/
  shadowBegin : Nat
  /-- The first address that it describes. -/
  appBegin : Nat
  /-- The position of the shadow byte that the window is about. -/
  focus : Nat
  /-- The shadow bytes. -/
  bytes : List UInt8
  deriving DecidableEq, Repr

namespace Window

/-- The number of rows of a full window. -/
def rows : Nat := 9

/-- The number of shadow bytes in a row. -/
def rowBytes : Nat := 8

end Window

/-- The window around a tracked address. -/
def window (s : Shadow) (addr : Nat) : Checked (Option Window) := do
  if !s.isTracked addr then
    return none
  let focus := s.toShadow addr
  let firstRow := Word.roundDown focus Window.rowBytes - Window.rows / 2 * Window.rowBytes
  let begin := max firstRow (s.toShadow s.appBegin)
  let rowsEnd ← Word.add firstRow (Window.rows * Window.rowBytes)
  let trackedEnd ← Word.add (s.toShadow (s.appEnd - 1)) 1
  let count ← Word.sub (min rowsEnd trackedEnd) begin
  let position ← Word.sub focus begin
  return some {
    shadowBegin := begin
    appBegin := s.ofShadow begin
    focus := position
    bytes := s.bytes.slice (Word.wrapSub begin s.offset) count
  }

end GuardedHeap.Shadow
