import GuardedHeap.Act
import GuardedHeap.RangeMap
import GuardedHeap.Text.Hex

/-! # Pages — reserving, committing and releasing virtual memory

    A heap reserves one inaccessible range, commits pieces of it as it
    grows and releases them when a large block goes away.  `Pages` is the
    machine below it: which pages can be touched, what their bytes are, how
    many mappings were placed, and the system calls that are set up to
    fail.

    Pages have 4096 bytes.  Where a mapping goes is up to the operating
    system (`MapPolicy`), as long as nothing is mapped there; unless told
    otherwise, the mapping placed as number `n` lies in a slot of its own,
    at most sixteen mappings fit, and each is smaller than a slot.  Fresh
    bytes are zero, and so are the bytes of a released page when it is
    committed again. -/

namespace GuardedHeap

/-- The system calls on memory. -/
inductive MemoryCall where
  | mmap
  | munmap
  | mprotect
  | madvise
  deriving DecidableEq, Repr

/-- The name of the call, as errors show it. -/
def MemoryCall.name : MemoryCall → String
  | .mmap => "mmap"
  | .munmap => "munmap"
  | .mprotect => "mprotect"
  | .madvise => "madvise"

/-- The call with a name. -/
def MemoryCall.ofName? (s : String) : Option MemoryCall :=
  [mmap, munmap, mprotect, madvise].find? (·.name == s)

/-- A memory call failed on a range. -/
structure MapError where
  call : MemoryCall
  addr : Nat
  size : Nat
  errno : Int
  deriving DecidableEq, Repr

/-- The wording of a failed memory call. -/
def MapError.message (e : MapError) : String :=
  s!"{e.call.name} of {Text.hex e.size} bytes at {Text.hex e.addr} failed (errno {e.errno})"

/-- How a page can be used. -/
inductive Access where
  /-- No mapping covers the page. -/
  | unmapped
  /-- Mapped, but any access traps. -/
  | reserved
  /-- Mapped for reading and writing. -/
  | writable
  deriving DecidableEq, Repr, Inhabited

/-- A call that is set up to fail once, after `after` calls of its kind went through. -/
structure ArmedFailure where
  call : MemoryCall
  errno : Int
  after : Int
  deriving DecidableEq, Repr

/-- Where the operating system puts mappings: the page at which one of `size` bytes begins that comes after
    `placed` others; none if there is no room. -/
def MapPolicy : Type :=
  (placed size : Nat) → Access → Option Nat

namespace Pages

/-- The number of bytes of a page. -/
abbrev pageSize : Nat := 4096

/-- The number of mappings that fit in slots. -/
def slotCount : Nat := 16

/-- The page at which the first slot begins. -/
def firstSlot : Nat := 0x100000000

/-- Every mapping gets a slot of its own, of `slotPages` pages: writable memory begins at the slot, a
    reservation one page below it. -/
def slots (slotPages : Nat) : MapPolicy := fun placed size a =>
  if size > (slotPages - 1) * pageSize ∨ placed ≥ slotCount then none
  else
    let slot := firstSlot + placed * slotPages
    some (if a = .reserved then slot - 1 else slot)

end Pages

/-- The state of virtual memory. -/
structure Pages where
  /-- Where mappings go. -/
  policy : MapPolicy := Pages.slots 0x40000000
  /-- The number of mappings placed so far. -/
  placed : Nat := 0
  /-- The access of each page, by page number. -/
  access : RangeMap Access := .const .unmapped
  /-- The byte at each address. -/
  bytes : RangeMap UInt8 := .const 0
  /-- The failure that is set up, if any. -/
  armed : Option ArmedFailure := none
  /-- The failures that get set up after it, each when the one before has been met. -/
  queued : List ArmedFailure := []

/-- A mapped range. -/
structure Mapping where
  begin : Nat
  size : Nat
  deriving DecidableEq, Repr

/-- The address right after the mapping. -/
def Mapping.endAddr (m : Mapping) : Nat :=
  m.begin + m.size

/-- The mapping covers the address. -/
def Mapping.contains (m : Mapping) (addr : Nat) : Bool :=
  m.begin ≤ addr && addr < m.endAddr

namespace Pages

/-- The error number of "out of memory". -/
def outOfMemory : Int := 12

/-- The error number of "invalid argument". -/
def invalidArgument : Int := 22

/-- The numbers of the pages that `[addr, addr + size)` touches: first, and one after the last. -/
def pageRange (addr size : Nat) : Nat × Nat :=
  (addr / pageSize, (addr + size + (pageSize - 1)) / pageSize)

/-- Set failures up, one after the other, in place of what was set up before. -/
def schedule (failures : List ArmedFailure) (p : Pages) : Pages :=
  { p with armed := failures.head?, queued := failures.tail }

/-- Set one `failure` up, in place of what was set up before. -/
def arm (failure : ArmedFailure) (p : Pages) : Pages :=
  p.schedule [failure]

/-- Every page of `[addr, addr + size)` can be read and written. -/
def isWritable (p : Pages) (addr size : Nat) : Bool :=
  let (lo, hi) := pageRange addr size
  size == 0 || (p.access.find? lo hi (· != .writable)).isNone

/-- The `n` bytes at `addr`. -/
def read (p : Pages) (addr n : Nat) : List UInt8 :=
  p.bytes.slice addr n

/-- Store the bytes at `addr`. -/
def write (p : Pages) (addr : Nat) (bytes : List UInt8) : Pages :=
  { p with bytes := p.bytes.setList addr bytes }

/-- Store `n` times the byte `b` at `addr`. -/
def writeFill (p : Pages) (addr n : Nat) (b : UInt8) : Pages :=
  { p with bytes := p.bytes.fill addr (addr + n) b }

/-- Copy the `n` bytes at `source` to `target`. -/
def copy (p : Pages) (source target n : Nat) : Pages :=
  { p with bytes := p.bytes.copy source target n }

/-! ## System calls -/

/-- The failure that the next call of this kind meets, if it is due, and the state in which
    it has been used up or come closer. -/
def takeFailure (call : MemoryCall) (p : Pages) : Option Int × Pages :=
  match p.armed with
  | none => (none, p)
  | some f =>
    if f.call ≠ call then (none, p)
    else if f.after = 0 then
      (some f.errno, { p with armed := p.queued.head?, queued := p.queued.tail })
    else (none, { p with armed := some { f with after := f.after - 1 } })

/-- Make the call on `[addr, addr + size)`: the armed failure comes first, then the error that
    `refusal` finds, and only then the effect. -/
def call (kind : MemoryCall) (addr size : Nat) (refusal : Pages → Option Int)
    (effect : Pages → Pages) : Act MapError Pages Unit := do
  let (failure, p) := takeFailure kind (← get)
  set p
  match failure.or (refusal p) with
  | some errno => Act.refuse ⟨kind, addr, size, errno⟩
  | none => set (effect p)

/-- The refusal of an address that no page begins at. -/
def unlessAligned (addr : Nat) (_ : Pages) : Option Int :=
  if addr % pageSize = 0 then none else some invalidArgument

/-- Give the pages of `[addr, addr + size)` the access `a`. -/
def setAccess (addr size : Nat) (a : Access) (p : Pages) : Pages :=
  let (lo, hi) := pageRange addr size
  { p with access := p.access.fill lo hi a }

/-- Zero the pages of `[addr, addr + size)`. -/
def zero (addr size : Nat) (p : Pages) : Pages :=
  let (lo, hi) := pageRange addr size
  { p with bytes := p.bytes.fill (lo * pageSize) (hi * pageSize) 0 }

/-- Nothing is mapped in `[addr, addr + size)`, which is not at zero and ends in the lower half of the
    address space. -/
def hasRoom (p : Pages) (addr size : Nat) : Bool :=
  let (lo, hi) := pageRange addr size
  0 < addr && addr + size < Word.signLimit && (p.access.find? lo hi (· != .unmapped)).isNone

/-- Where the next mapping begins, if there is room for it. -/
def place? (p : Pages) (size : Nat) (a : Access) : Option Nat :=
  ((p.policy p.placed size a).map (· * pageSize)).filter (p.hasRoom · size)

/-- Map `size` fresh bytes and return where they begin. -/
def map (size : Nat) (a : Access) : Act MapError Pages Nat := do
  call .mmap 0 size
    (fun p => if (p.place? size a).isNone then some outOfMemory else none)
    id
  let p ← get
  let addr ← Act.orRefuse ⟨.mmap, 0, size, outOfMemory⟩ (p.place? size a)
  set (setAccess addr size a { p with placed := p.placed + 1 })
  return addr

/-- Remove the mapping of `[addr, addr + size)`. -/
def unmap (addr size : Nat) : Act MapError Pages Unit :=
  call .munmap addr size (unlessAligned addr) (setAccess addr size .unmapped)

/-! ## Mappings -/

/-- Reserve `size` bytes, rounded up to pages, that begin at a multiple of `align`: more is
    mapped than needed, and what lies before and after the aligned range is unmapped. -/
def reserve (size align : Nat) : Act MapError Pages Mapping := do
  let align := Nat.max align pageSize
  let overflow : MapError := ⟨.mmap, 0, size, outOfMemory⟩
  let size ← Act.orRefuse overflow (Word.nextMultiple? size pageSize)
  let total ← Act.orRefuse overflow (Word.add? size align)
  let raw ← map total .reserved
  let begin ← Word.nextMultiple raw align
  if begin > raw then
    unmap raw (begin - raw)
  let mappedEnd ← Word.add raw total
  let usedEnd ← Word.add begin size
  let tail ← Word.sub mappedEnd usedEnd
  if tail > 0 then
    unmap usedEnd tail
  return { begin, size }

/-- Map at least `size` zero bytes for reading and writing. -/
def anonymous (size : Nat) : Act MapError Pages Mapping := do
  let size ← Word.nextMultiple (Nat.max size 1) pageSize
  let begin ← map size .writable
  return { begin, size }

/-- Give a mapping back; a failure to do so is ignored. -/
def drop (m : Mapping) (p : Pages) : Pages :=
  match unmap m.begin m.size p with
  | .ok _ q => q
  | .error _ q => q

/-- Make `[addr, addr + size)` readable and writable. -/
def commit (addr size : Nat) : Act MapError Pages Unit :=
  if size = 0 then pure ()
  else call .mprotect addr size (unlessAligned addr) (setAccess addr size .writable)

/-- Give the contents of `[addr, addr + size)` back and make it inaccessible. -/
def release (addr size : Nat) : Act MapError Pages Unit := do
  if size = 0 then
    return
  call .madvise addr size (unlessAligned addr) (zero addr size)
  call .mprotect addr size (unlessAligned addr) (setAccess addr size .reserved)

end Pages

end GuardedHeap
