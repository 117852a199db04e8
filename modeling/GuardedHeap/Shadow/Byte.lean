/-! # Shadow bytes — what one byte says about eight

    A granule is eight bytes of memory, and one shadow byte describes it:
    `0` when all eight can be accessed, `1` to `7` when only that many
    leading bytes can, and a `Magic` value when none can; the value says
    why.  Any other byte also means that none can. -/

namespace GuardedHeap.Shadow

/-- The number of bytes that one shadow byte describes. -/
abbrev granule : Nat := 8

/-- Why a granule cannot be accessed. -/
inductive Magic where
  | heapLeftRedzone
  | heapRightRedzone
  | heapFreed
  | stackLeftRedzone
  | stackMidRedzone
  | stackRightRedzone
  | stackPartialRedzone
  | stackAfterReturn
  | userPoisoned
  | globalRedzone
  | allocatorInternal
  deriving DecidableEq, Repr

namespace Magic

/-- Every reason, in the order of the legend. -/
def all : List Magic :=
  [heapLeftRedzone, heapRightRedzone, heapFreed, stackLeftRedzone, stackMidRedzone,
    stackRightRedzone, stackPartialRedzone, stackAfterReturn, userPoisoned, globalRedzone,
    allocatorInternal]

/-- The shadow byte that stands for the reason. -/
def byte : Magic → UInt8
  | heapLeftRedzone => 0xfa
  | heapRightRedzone => 0xfb
  | heapFreed => 0xfd
  | stackLeftRedzone => 0xf1
  | stackMidRedzone => 0xf2
  | stackRightRedzone => 0xf3
  | stackPartialRedzone => 0xf4
  | stackAfterReturn => 0xf5
  | userPoisoned => 0xf7
  | globalRedzone => 0xf9
  | allocatorInternal => 0xfe

/-- The reason that a shadow byte stands for. -/
def ofByte? (b : UInt8) : Option Magic :=
  all.find? (·.byte == b)

/-- The name of the reason in machine-readable output. -/
def name : Magic → String
  | heapLeftRedzone => "heap_left_redzone"
  | heapRightRedzone => "heap_right_redzone"
  | heapFreed => "heap_freed"
  | stackLeftRedzone => "stack_left_redzone"
  | stackMidRedzone => "stack_mid_redzone"
  | stackRightRedzone => "stack_right_redzone"
  | stackPartialRedzone => "stack_partial_redzone"
  | stackAfterReturn => "stack_after_return"
  | userPoisoned => "user_poisoned"
  | globalRedzone => "global_redzone"
  | allocatorInternal => "allocator_internal"

/-- The wording of the reason in the legend of a report. -/
def description : Magic → String
  | heapLeftRedzone => "Heap left redzone"
  | heapRightRedzone => "Heap right redzone"
  | heapFreed => "Freed heap region"
  | stackLeftRedzone => "Stack left redzone"
  | stackMidRedzone => "Stack mid redzone"
  | stackRightRedzone => "Stack right redzone"
  | stackPartialRedzone => "Stack partial redzone"
  | stackAfterReturn => "Stack after return"
  | userPoisoned => "Poisoned by user"
  | globalRedzone => "Global redzone"
  | allocatorInternal => "Allocator internal"

theorem ofByte?_byte (m : Magic) : ofByte? m.byte = some m := by
  cases m <;> rfl

end Magic

/-- All bytes of a granule with this shadow byte can be accessed. -/
def isAddressable (b : UInt8) : Bool :=
  b == 0

/-- Some but not all bytes of a granule with this shadow byte can be accessed. -/
def isPartial (b : UInt8) : Bool :=
  1 ≤ b && b ≤ 7

/-- How many leading bytes of a granule with this shadow byte can be accessed. -/
def addressableBytes (b : UInt8) : Nat :=
  if b = 0 then granule else if b < 8 then b.toNat else 0

/-- The shadow byte of a granule whose first `valid` bytes can be accessed, for a count that
    is neither none nor all of them. -/
def partialByte? (valid : Nat) : Option UInt8 :=
  if 0 < valid ∧ valid < granule then some (UInt8.ofNat valid) else none

/-- The shadow byte of a granule whose first `valid` bytes can be accessed, where a count of
    eight is all of them. -/
def byteOfValid (valid : Nat) : UInt8 :=
  if valid = granule then 0 else UInt8.ofNat valid

theorem addressableBytes_le (b : UInt8) : addressableBytes b ≤ granule := by
  unfold addressableBytes
  split
  · exact Nat.le_refl _
  · split
    · rename_i h
      exact Nat.le_of_lt (UInt8.lt_iff_toNat_lt.mp h)
    · exact Nat.zero_le _

end GuardedHeap.Shadow
