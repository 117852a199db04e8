import GuardedHeap.Word

/-! # Size classes — which sizes small blocks come in

    The sizes of small blocks follow a spline of five segments: from one
    anchor to the next they go up by the segment's step.  A valid spline
    gives a strictly increasing table of multiples of eight; a size belongs
    to the first class that holds it. -/

namespace GuardedHeap

/-- A spline is not valid. -/
inductive SizeClassError where
  | badStep (segment step : Nat)
  | badSegment (segment first last step : Nat)
  | badMinSize (size : Nat)
  | badMaxSize (size : Nat)
  | tooManyClasses (count : Nat)
  deriving DecidableEq, Repr

/-- The wording of a spline error. -/
def SizeClassError.message : SizeClassError → String
  | .badStep segment step => s!"step {step} of segment {segment} is not a power of two >= 8"
  | .badSegment segment first last step =>
    s!"segment {segment} [{first}, {last}] is not a positive multiple of its step {step}"
  | .badMinSize size => s!"first anchor {size} is not a non-zero multiple of 8"
  | .badMaxSize size => s!"last anchor {size} is not a power of two"
  | .tooManyClasses count => s!"spline yields {count} classes, more than the supported 256"

namespace SizeClass

/-- One segment of a spline. -/
structure Segment where
  /-- The anchor that the segment begins at. -/
  first : Nat
  /-- The anchor that it ends at. -/
  last : Nat
  /-- What sizes go up by. -/
  step : Nat
  /-- How many free blocks of such a size a thread takes at once. -/
  maxCached : Nat
  deriving DecidableEq, Repr

/-- The number of segments of a spline. -/
abbrev segmentCount : Nat := 5

/-- The greatest number of classes. -/
def maxClasses : Nat := 256

/-- What every size is a multiple of. -/
def quantum : Nat := 8

/-- A spline through six anchors; each segment has a step and a cache size. -/
structure Spline where
  anchors : Vector Nat (segmentCount + 1)
  steps : Vector Nat segmentCount
  maxCached : Vector Nat segmentCount
  deriving DecidableEq, Repr

namespace Spline

/-- 256 classes from 16 bytes to 2 MiB. -/
def default : Spline where
  anchors := #v[16, 512, 4096, 32768, 262144, 2097152]
  steps := #v[16, 64, 512, 4096, 32768]
  maxCached := #v[256, 64, 16, 4, 1]

/-- 32 classes from 8 bytes to 32 KiB. -/
def compact : Spline where
  anchors := #v[8, 16, 128, 256, 4096, 32768]
  steps := #v[8, 16, 128, 256, 4096]
  maxCached := #v[256, 128, 64, 16, 4]

/-- The segments; each begins where the one before ends. -/
def segments (s : Spline) : List Segment :=
  [⟨s.anchors[0], s.anchors[1], s.steps[0], s.maxCached[0]⟩,
    ⟨s.anchors[1], s.anchors[2], s.steps[1], s.maxCached[1]⟩,
    ⟨s.anchors[2], s.anchors[3], s.steps[2], s.maxCached[2]⟩,
    ⟨s.anchors[3], s.anchors[4], s.steps[3], s.maxCached[3]⟩,
    ⟨s.anchors[4], s.anchors[5], s.steps[4], s.maxCached[4]⟩]

/-- The first anchor. -/
def first (s : Spline) : Nat :=
  s.anchors[0]

/-- The last anchor. -/
def last (s : Spline) : Nat :=
  s.anchors[5]

/-- The fault of the first faulty segment, if the segments are numbered from `i` on. -/
def segmentFault? (i : Nat) : List Segment → Option SizeClassError
  | [] => none
  | g :: rest =>
    if !Word.isPowerOfTwo g.step || g.step < quantum then some (.badStep i g.step)
    else if g.last ≤ g.first || (g.last - g.first) % g.step ≠ 0 then
      some (.badSegment i g.first g.last g.step)
    else segmentFault? (i + 1) rest

/-- The number of classes, if `n` come before the segments. -/
def countFrom (n : Nat) : List Segment → Checked Nat
  | [] => .ok n
  | g :: rest => do
    countFrom (← Word.add n ((g.last - g.first) / g.step)) rest

/-- The fault of a spline, if it has one. -/
def fault? (s : Spline) : Checked (Option SizeClassError) := do
  if s.first = 0 ∨ s.first % quantum ≠ 0 then
    return some (.badMinSize s.first)
  if !Word.isPowerOfTwo s.last then
    return some (.badMaxSize s.last)
  match segmentFault? 0 s.segments with
  | some e => return some e
  | none =>
    let count ← countFrom 1 s.segments
    return if count > maxClasses then some (.tooManyClasses count) else none

end Spline

/-- One size class. -/
structure Entry where
  size : Nat
  maxCached : Nat
  deriving DecidableEq, Repr

/-- The sizes from `size` up to `last` in steps; `n` bounds their number. -/
def climb (step last : Nat) : (n : Nat) → (size : Nat) → Checked (List Nat)
  | 0, _ => .ok []
  | n + 1, size =>
    if size ≤ last then do
      let rest ← climb step last n (← Word.add size step)
      return size :: rest
    else .ok []

/-- The classes of one segment but for its first anchor. -/
def Segment.entries (g : Segment) : Checked (List Entry) := do
  let sizes ← climb g.step g.last ((g.last - g.first) / g.step) (← Word.add g.first g.step)
  return sizes.map (⟨·, g.maxCached⟩)

/-- The classes of all segments but for the first anchor. -/
def segmentEntries : List Segment → Checked (List Entry)
  | [] => .ok []
  | g :: rest => do
    return (← g.entries) ++ (← segmentEntries rest)

/-- The classes of a spline. -/
def Spline.entries (s : Spline) : Checked (List Entry) := do
  return ⟨s.first, s.maxCached[0]⟩ :: (← segmentEntries s.segments)

end SizeClass

/-- A table of size classes, smallest first. -/
structure SizeClasses where
  entries : Array SizeClass.Entry
  deriving DecidableEq, Repr

namespace SizeClasses

open SizeClass

/-- The table of a valid spline. -/
def ofSpline? (s : Spline) : Checked (Except SizeClassError SizeClasses) := do
  match ← s.fault? with
  | some e => return .error e
  | none => return .ok ⟨(← s.entries).toArray⟩

/-- The table of a spline that is known to build. -/
def ofSpline (s : Spline) : SizeClasses :=
  match s.entries with
  | .ok entries => ⟨entries.toArray⟩
  | .error _ => ⟨#[]⟩

/-- The table of the default spline. -/
def default : SizeClasses := ofSpline Spline.default

/-- The table of the compact spline. -/
def compact : SizeClasses := ofSpline Spline.compact

/-- The number of classes. -/
def count (t : SizeClasses) : Nat :=
  t.entries.size

/-- The size of a class, zero if there is no such class. -/
def size (t : SizeClasses) (id : Nat) : Nat :=
  (t.entries[id]?.map (·.size)).getD 0

/-- The number of blocks of a class that a thread takes at once, zero if there is no such class. -/
def maxCached (t : SizeClasses) (id : Nat) : Nat :=
  (t.entries[id]?.map (·.maxCached)).getD 0

/-- The size of the first class. -/
def minSize (t : SizeClasses) : Nat :=
  t.size 0

/-- The size of the last class. -/
def maxSize (t : SizeClasses) : Nat :=
  t.size (t.count - 1)

/-- All sizes. -/
def sizes (t : SizeClasses) : List Nat :=
  t.entries.toList.map (·.size)

/-- The first class that holds `size` bytes: in a sorted table, as many as there are smaller
    ones. -/
def classOf? (t : SizeClasses) (size : Nat) : Option Nat :=
  if size > t.maxSize then none else some (t.entries.toList.countP (·.size < size))

/-- The first class that holds `size` bytes and whose size is a multiple of `alignment`. -/
def alignedClassOf? (t : SizeClasses) (size alignment : Nat) : Checked (Option Nat) :=
  match t.classOf? size with
  | none => .ok none
  | some first =>
    if alignment = 0 then .error .overrun
    else
      .ok ((List.range (t.count - first)).map (first + ·) |>.find? fun id =>
        t.size id % alignment = 0)

end SizeClasses

end GuardedHeap
