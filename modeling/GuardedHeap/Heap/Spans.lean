/-! # Spans — which parts of a range are free

    A range is used from its beginning up to a bump pointer; below it lie
    free spans, sorted, never adjacent to one another and never ending at
    the bump pointer.  A request takes the first free span that is long
    enough, or else moves the bump pointer.  A span given back merges with
    its neighbours, and one that ends at the bump pointer lowers it. -/

namespace GuardedHeap

/-- A piece of a range. -/
structure Span where
  begin : Nat
  size : Nat
  deriving DecidableEq, Repr

/-- The address after the span. -/
def Span.past (s : Span) : Nat :=
  s.begin + s.size

/-- The free parts of the range that ends at `past`. -/
structure Spans where
  /-- The free spans below the bump pointer, in increasing order. -/
  free : List Span
  bump : Nat
  past : Nat
  deriving DecidableEq, Repr

namespace Spans

/-- All of `[begin, past)` is free. -/
def new (begin past : Nat) : Spans :=
  { free := [], bump := begin, past }

/-- Cut `size` bytes from the beginning of the first span that has as many. -/
def takeFirst? (size : Nat) : List Span → Option (Nat × List Span)
  | [] => none
  | s :: rest =>
    if size ≤ s.size then
      some (s.begin, if size < s.size then ⟨s.begin + size, s.size - size⟩ :: rest else rest)
    else (takeFirst? size rest).map fun (begin, rest) => (begin, s :: rest)

/-- Take `size` bytes. -/
def alloc (s : Spans) (size : Nat) : Option (Nat × Spans) :=
  match takeFirst? size s.free with
  | some (begin, free) => some (begin, { s with free })
  | none =>
    if s.past - s.bump < size then none
    else some (s.bump, { s with bump := s.bump + size })

/-- Grow a span by the last one before it, if they touch. -/
def mergeBefore (before : List Span) (s : Span) : List Span × Span :=
  match before.getLast? with
  | some p => if p.past = s.begin then (before.dropLast, ⟨p.begin, p.size + s.size⟩) else (before, s)
  | none => (before, s)

/-- Grow a span by the first one after it, if they touch. -/
def mergeAfter (s : Span) : (after : List Span) → Span × List Span
  | [] => (s, [])
  | n :: rest => if n.begin = s.past then (⟨s.begin, s.size + n.size⟩, rest) else (s, n :: rest)

/-- Give a span back. -/
def release (s : Spans) (span : Span) : Spans :=
  let (before, grown) := mergeBefore (s.free.takeWhile (·.begin < span.begin)) span
  let (grown, after) := mergeAfter grown (s.free.dropWhile (·.begin < span.begin))
  if grown.past = s.bump then { s with free := before ++ after, bump := grown.begin }
  else { s with free := before ++ grown :: after }

end Spans

end GuardedHeap
