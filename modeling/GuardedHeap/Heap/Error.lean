import GuardedHeap.Shadow.Basic

/-! # Allocation errors -/

namespace GuardedHeap

/-- An allocator refused. -/
inductive AllocError where
  /-- The region of a size class is full. -/
  | regionExhausted (classId regionSize : Nat)
  /-- No span of the large range is long enough. -/
  | secondaryExhausted (size : Nat)
  /-- The size leaves the word when it is padded. -/
  | overflow (size alignment : Nat)
  /-- The alignment is not a power of two. -/
  | invalidAlignment (alignment : Nat)
  /-- The product of count and size leaves the word. -/
  | callocOverflow (count size : Nat)
  /-- No size class holds the size. -/
  | noSizeClass (size : Nat)
  /-- The address is that of no block. -/
  | unknownPointer (addr : Nat)
  | map (error : MapError)
  | shadow (error : ShadowError)
  deriving DecidableEq, Repr

/-- The wording of an allocation error. -/
def AllocError.message : AllocError → String
  | .regionExhausted classId regionSize =>
    s!"size class {classId} region exhausted ({Text.hex regionSize} bytes)"
  | .secondaryExhausted size =>
    s!"large allocation of {Text.hex size} bytes exhausts the secondary space"
  | .overflow size alignment =>
    s!"requested size {Text.hex size} with alignment {Text.hex alignment} overflows"
  | .invalidAlignment alignment => s!"alignment {Text.hex alignment} is not a power of two"
  | .callocOverflow count size =>
    s!"calloc parameters overflow: count ({Text.hex count}) * size ({Text.hex size})"
  | .noSizeClass size => s!"no size class serves {Text.hex size} bytes"
  | .unknownPointer addr => s!"pointer {Text.hex addr} was not allocated by this heap"
  | .map error => error.message
  | .shadow error => error.message

end GuardedHeap
