import GuardedHeap.Heap.Basic

/-! # Large blocks — mapping and unmapping them

    A large block takes a span, commits it, and is put into the list; if
    its pages cannot be committed the span goes back.  A freed block leaves
    the list before its pages are released, and its span goes back only
    after they were. -/

namespace GuardedHeap.Heap

/-- Change the large blocks. -/
def modifyLarge (f : Large → Large) : Act AllocError Heap Unit :=
  modify fun h => { h with large := f h.large }

/-- The bytes to map for a block: its pages, one for the header, and slack for an alignment
    beyond a page. -/
def mapSizeFor? (size alignment : Nat) : Option Nat := do
  let rounded ← Word.nextMultiple? size Pages.pageSize
  let mapped ← Word.add? rounded Pages.pageSize
  if alignment > Pages.pageSize then Word.add? mapped alignment else return mapped

/-- Take a span for a mapping of a large block. -/
def takeSpan (size mapSize : Nat) : Act AllocError Heap Nat := do
  let h ← get
  let (begin, spans) ← Act.orRefuse (.secondaryExhausted size) (h.large.spans.alloc mapSize)
  modifyLarge fun l => { l with spans }
  return begin

/-- Give a span back. -/
def returnSpan (span : Span) : Act AllocError Heap Unit :=
  modifyLarge fun l => { l with spans := l.spans.release span }

/-- Map a large block. -/
def allocateLarge (size alignment : Nat) : Act AllocError Heap Nat := do
  let mapSize ← Act.orRefuse (.overflow size alignment) (mapSizeFor? size alignment)
  let mapBegin ← takeSpan size mapSize
  match ← Act.attempt (onPages (Pages.commit mapBegin mapSize)) with
  | .error e =>
    returnSpan ⟨mapBegin, mapSize⟩
    Act.refuse e
  | .ok () =>
    poison mapBegin mapSize .heapLeftRedzone
    let user ← Word.nextMultiple (mapBegin + Pages.pageSize) (max alignment Pages.pageSize)
    modifyLarge (·.link { user, size, mapBegin, mapSize, prev := 0, next := 0, record := {} })
    return user

/-- Unmap the large block that begins at `p`. -/
def freeLarge (p : Nat) : Act AllocError Heap Unit := do
  let h ← get
  let b ← Act.orRefuse (.unknownPointer p) (h.large.blockAt? p)
  modifyLarge (·.unlink b)
  onPages (Pages.release b.mapBegin b.mapSize)
  returnSpan ⟨b.mapBegin, b.mapSize⟩

end GuardedHeap.Heap
