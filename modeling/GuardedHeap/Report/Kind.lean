import GuardedHeap.Shadow.Basic

/-! # Bug kinds — what a shadow byte makes of a bad access -/

namespace GuardedHeap

/-- The kind of bug that a bad access is. -/
inductive BugKind where
  | heapBufferOverflow
  | heapUseAfterFree
  | stackBufferUnderflow
  | stackBufferOverflow
  | stackUseAfterReturn
  | useAfterPoison
  | globalBufferOverflow
  | unknownCrash
  deriving DecidableEq, Repr

namespace BugKind

/-- The name of a kind. -/
def name : BugKind → String
  | heapBufferOverflow => "heap-buffer-overflow"
  | heapUseAfterFree => "heap-use-after-free"
  | stackBufferUnderflow => "stack-buffer-underflow"
  | stackBufferOverflow => "stack-buffer-overflow"
  | stackUseAfterReturn => "stack-use-after-return"
  | useAfterPoison => "use-after-poison"
  | globalBufferOverflow => "global-buffer-overflow"
  | unknownCrash => "unknown-crash"

open Shadow (Magic) in
/-- The kind of an access that the reason for a poisoned granule explains. -/
def ofMagic : Magic → BugKind
  | .heapLeftRedzone => heapBufferOverflow
  | .heapRightRedzone => heapBufferOverflow
  | .heapFreed => heapUseAfterFree
  | .stackLeftRedzone => stackBufferUnderflow
  | .stackMidRedzone => stackBufferOverflow
  | .stackRightRedzone => stackBufferOverflow
  | .stackPartialRedzone => stackBufferOverflow
  | .stackAfterReturn => stackUseAfterReturn
  | .userPoisoned => useAfterPoison
  | .globalRedzone => globalBufferOverflow
  | .allocatorInternal => unknownCrash

/-- The kind of an access that a shadow byte explains. -/
def ofShadow (b : UInt8) : BugKind :=
  match Shadow.Magic.ofByte? b with
  | some m => ofMagic m
  | none => unknownCrash

/-- The kind of an access that a shadow byte explains, if there is one. -/
def ofShadow? : Option UInt8 → BugKind
  | some b => ofShadow b
  | none => unknownCrash

end BugKind

/-- The kind of a bad access to `[addr, addr + size)`. -/
def Shadow.bugKind (s : Shadow) (addr size : Nat) : Checked BugKind := do
  return BugKind.ofShadow? (← s.explaining addr size)

end GuardedHeap
