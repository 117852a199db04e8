import GuardedHeap.Pages
import GuardedHeap.Shadow.Byte

/-! # Shadow memory — which bytes of a range can be accessed

    A `Shadow` tracks one range of addresses, `[appBegin, appEnd)`, and
    holds a shadow byte for each of its granules.  The shadow bytes lie in
    an array of their own: the one of address `a` is at
    `a / 8 + offset`, modulo the word.  A granule is written here by its
    number `a / 8`.

    Two kinds of writing differ in what they do to a granule that the range
    covers only in part.  The allocator's `poison` overwrites the last
    granule; a user's `poisonUser` and `unpoisonUser` keep what the bytes
    outside the range need. -/

namespace GuardedHeap

/-- A shadow operation failed. -/
inductive ShadowError where
  /-- The range leaves the tracked range. -/
  | invalidRange (addr size trackedBegin trackedEnd : Nat)
  /-- The address begins no granule. -/
  | unaligned (addr : Nat)
  /-- The shadow array could not be mapped. -/
  | map (error : MapError)
  deriving DecidableEq, Repr

/-- The wording of a shadow error. -/
def ShadowError.message : ShadowError → String
  | .invalidRange addr size trackedBegin trackedEnd =>
    s!"range {Text.hex addr}+{Text.hex size} is outside the tracked range " ++
      s!"[{Text.hex trackedBegin}, {Text.hex trackedEnd})"
  | .unaligned addr => s!"address {Text.hex addr} is not aligned to the 8-byte shadow granule"
  | .map error => error.message

/-- The shadow of a range of addresses. -/
structure Shadow where
  /-- The first tracked address. -/
  appBegin : Nat
  /-- The address after the last tracked one. -/
  appEnd : Nat
  /-- What is added to a granule's number to get the address of its shadow byte. -/
  offset : Nat
  /-- The shadow byte of each granule, by the granule's number. -/
  bytes : RangeMap UInt8
  deriving Repr

namespace Shadow

/-- A shadow for `[appBegin, appBegin + appSize)` in which everything can be accessed. -/
def create (appBegin appSize : Nat) : Act ShadowError Pages Shadow := do
  if appBegin % granule ≠ 0 then
    Act.refuse (.unaligned appBegin)
  let appEnd ← Act.orRefuse (.invalidRange appBegin appSize 0 Word.max) (Word.add? appBegin appSize)
  let array ← Act.mapError .map (Pages.anonymous ((appSize + (granule - 1)) / granule))
  return {
    appBegin
    appEnd
    offset := Word.wrapSub array.begin (appBegin / granule)
    bytes := .const 0
  }

/-! ## Addresses -/

/-- The address of the shadow byte for `addr`. -/
def toShadow (s : Shadow) (addr : Nat) : Nat :=
  Word.wrapAdd (addr / granule) s.offset

/-- The first address of the granule whose shadow byte is at `shadowAddr`. -/
def ofShadow (s : Shadow) (shadowAddr : Nat) : Nat :=
  Word.wrapSub shadowAddr s.offset * granule % Word.limit

/-- The address is tracked. -/
def isTracked (s : Shadow) (addr : Nat) : Bool :=
  s.appBegin ≤ addr && addr < s.appEnd

/-- All of `[addr, addr + size)` is tracked. -/
def covers (s : Shadow) (addr size : Nat) : Bool :=
  s.appBegin ≤ addr && addr + size ≤ s.appEnd

/-- The refusal of a range that is not tracked. -/
def outside (s : Shadow) (addr size : Nat) : ShadowError :=
  .invalidRange addr size s.appBegin s.appEnd

/-! ## Granules -/

/-- The shadow byte of a granule. -/
def ofGranule (s : Shadow) (g : Nat) : UInt8 :=
  s.bytes.get g

/-- Give the granules `lo` to `hi - 1` the shadow byte `b`. -/
def fillGranules (s : Shadow) (lo hi : Nat) (b : UInt8) : Shadow :=
  { s with bytes := s.bytes.fill lo hi b }

/-- Give one granule the shadow byte `b`. -/
def setGranule (s : Shadow) (g : Nat) (b : UInt8) : Shadow :=
  { s with bytes := s.bytes.set g b }

/-! ## The allocator's marks -/

/-- Mark `[addr, addr + size)` with `value`: whole granules get it, and so does a last granule
    that is covered in part, unless the value is zero, when that granule keeps just its covered
    bytes accessible. -/
def poisoned (s : Shadow) (addr size : Nat) (value : UInt8) : Shadow :=
  let first := addr / granule
  let full := size / granule
  let tail := size % granule
  let s := s.fillGranules first (first + full) value
  if tail = 0 then s
  else s.setGranule (first + full) (if value = 0 then UInt8.ofNat tail else value)

/-- `poisoned` for a range that is tracked and begins with a granule; no bytes at all are
    always marked. -/
def poison (addr size : Nat) (value : UInt8) : Act ShadowError Shadow Unit := do
  if size = 0 then
    return
  let s ← get
  if !s.covers addr size then
    Act.refuse (s.outside addr size)
  if addr % granule ≠ 0 then
    Act.refuse (.unaligned addr)
  set (s.poisoned addr size value)

/-- Make `[addr, addr + size)` accessible, and the rest of its last granule not. -/
def unpoison (addr size : Nat) : Act ShadowError Shadow Unit :=
  poison addr size 0

/-! ## The user's marks -/

/-- Poison the granule `g`, of which bytes `[from, to)` are meant, if everything behind them is
    poisoned already: the bytes before `from` keep their state. -/
def poisonWithin (s : Shadow) (g fromByte toByte : Nat) : Shadow :=
  let current := s.ofGranule g
  if current < 8 ∧ addressableBytes current ≤ toByte then
    let keep := min fromByte (addressableBytes current)
    s.setGranule g (if keep = 0 then Magic.userPoisoned.byte else UInt8.ofNat keep)
  else s

/-- The shadow in which a user has poisoned `[addr, addr + size)`: whole granules are
    poisoned, the first one keeps the bytes before the range, and the last one changes only if
    none of its bytes behind the range could be accessed. -/
def userPoisoned (s : Shadow) (addr size : Nat) : Shadow :=
  let finish := addr + size
  let first := addr / granule
  let last := finish / granule
  let before := addr % granule
  let after := finish % granule
  if first = last then s.poisonWithin first before after
  else
    let s :=
      if before = 0 then s
      else
        let current := s.ofGranule first
        if current < 8 ∧ before < addressableBytes current then s.setGranule first (UInt8.ofNat before)
        else s
    let s := s.fillGranules (if before = 0 then first else first + 1) last Magic.userPoisoned.byte
    if after = 0 then s else s.poisonWithin last 0 after

/-- The shadow in which a user has made `[addr, addr + size)` accessible: with it the bytes
    before it in its first granule, and those that were accessible behind it in its last. -/
def userUnpoisoned (s : Shadow) (addr size : Nat) : Shadow :=
  let finish := addr + size
  let first := addr / granule
  let last := finish / granule
  let after := finish % granule
  let s := s.fillGranules first last 0
  if after = 0 then s
  else
    let current := s.ofGranule last
    let valid := if current < 8 then max (addressableBytes current) after else after
    s.setGranule last (byteOfValid valid)

/-- Run `mark` on a tracked range; no bytes at all are always marked. -/
def markUser (mark : Shadow → Nat → Nat → Shadow) (addr size : Nat) :
    Act ShadowError Shadow Unit := do
  if size = 0 then
    return
  let s ← get
  if !s.covers addr size then
    Act.refuse (s.outside addr size)
  set (mark s addr size)

/-- Poison `[addr, addr + size)` for a user. -/
def poisonUser (addr size : Nat) : Act ShadowError Shadow Unit :=
  markUser userPoisoned addr size

/-- Make `[addr, addr + size)` accessible for a user. -/
def unpoisonUser (addr size : Nat) : Act ShadowError Shadow Unit :=
  markUser userUnpoisoned addr size

/-! ## Questions -/

/-- The shadow byte for a tracked address. -/
def byteAt (s : Shadow) (addr : Nat) : Except ShadowError UInt8 :=
  if s.covers addr 1 then .ok (s.ofGranule (addr / granule)) else .error (s.outside addr 1)

/-- The first granule that an access to `[addr, addr + size)` may not touch as it does: every
    granule but the last one of the range is touched up to its end, the last one up to the end
    of the range. -/
def firstBad (s : Shadow) (addr size : Nat) : Query ShadowError (Option Nat) := do
  if size = 0 then
    return none
  if !s.covers addr size then
    throw (.refused (s.outside addr size))
  let last := (addr + size - 1) / granule
  match s.bytes.find? (addr / granule) last (· != 0) with
  | some g => return some (g * granule)
  | none =>
    -- The end of the last granule has to be a word, too.
    let _ ← Query.check (Word.add (last * granule) granule)
    let touched := addr + size - 1 - last * granule
    return if addressableBytes (s.ofGranule last) ≤ touched then some (last * granule) else none

/-- An access to `[addr, addr + size)` touches a byte that it must not. -/
def accessIsPoisoned (s : Shadow) (addr size : Nat) : Query ShadowError Bool :=
  return (← s.firstBad addr size).isSome

/-- The byte at `addr` must not be accessed. -/
def isPoisoned (s : Shadow) (addr : Nat) : Query ShadowError Bool :=
  s.accessIsPoisoned addr 1

/-- The shadow byte that explains a bad access to `[addr, addr + size)`: the one of its first
    granule, but the next one if the first granule is accessible and the access goes on behind
    it, and then again the next one if the byte found is partial.  An untracked granule
    explains nothing. -/
def explaining (s : Shadow) (addr size : Nat) : Checked (Option UInt8) := do
  let start := Word.roundDown addr granule
  match s.byteAt start with
  | .error _ => return none
  | .ok byte =>
    let reach ← Word.add (addr - start) size
    let (start, byte) ←
      if isAddressable byte ∧ reach > granule then next start byte else pure (start, byte)
    let (_, byte) ← if isPartial byte then next start byte else pure (start, byte)
    return some byte
where
  /-- The next granule and its shadow byte, which stays the old one where nothing is tracked. -/
  next (start : Nat) (byte : UInt8) : Checked (Nat × UInt8) := do
    let start ← Word.add start granule
    match s.byteAt start with
    | .ok byte => return (start, byte)
    | .error _ => return (start, byte)

end Shadow

end GuardedHeap
