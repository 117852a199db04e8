import GuardedHeap.Report.Basic

/-! # Report texts — reports for a reader

    A text is a list of lines between a ruler and a summary. -/

namespace GuardedHeap

namespace Report

/-- The line that every report begins with. -/
def ruler : String :=
  String.ofList (List.replicate 65 '=')

/-- A list of lines as one text. -/
def unlines (lines : List String) : String :=
  String.join (lines.map (· ++ "\n"))

/-- A stack trace, indented. -/
def stackLine (stack : StackId) : String :=
  "    " ++ StackId.text stack

/-- The user's bytes of a chunk: how many, and from where to where. -/
def regionText (c : Chunk) : Checked String := do
  let past ← c.userEnd
  return s!"{c.record.requestedSize}-byte region " ++
    s!"[{Text.hex c.record.userBegin},{Text.hex past})"

/-- How a relation reads before the bytes that it refers to. -/
def sideText : Relation → String
  | .left => "to the left of"
  | .inside => "inside of"
  | .right => "to the right of"

/-- The lines about a chunk: where the address lies, and who freed and allocated the chunk. -/
def heapLines (addr : Nat) (l : HeapLocation) : Checked (List String) := do
  let r := l.chunk.record
  let region ← regionText l.chunk
  let place :=
    s!"{Text.hex addr} is located {l.distance} bytes {sideText l.relation} " ++ region
  let history :=
    if r.state = .quarantined then
      [s!"freed by thread T{r.freed.tid} here:", stackLine r.freed.stack, "",
        s!"previously allocated by thread T{r.allocated.tid} here:"]
    else [s!"allocated by thread T{r.allocated.tid} here:"]
  return place :: history ++ [stackLine r.allocated.stack]

/-- The line about a frame. -/
def frameLine (addr : Nat) (f : FakeFrame) (offset : Nat) : String :=
  s!"Address {Text.hex addr} is located at offset {offset} in fake stack frame " ++
    s!"{Text.hex f.addr} (class {f.classId}, slot {f.slot}, owner real stack " ++
    s!"{Text.hex f.realStack})"

/-- The lines about the address. -/
def descriptionLines (addr : Nat) : Option Description → Checked (List String)
  | some (.heap l) => heapLines addr l
  | some (.fakeFrame f offset) => return [frameLine addr f offset]
  | none => return [s!"Address {Text.hex addr} is not described by any known chunk"]

/-- The lists of `n` items that make up a list, but for the last one, which may be shorter. -/
def rowsOf {α : Type} (n : Nat) (items : List α) : List (List α) :=
  (List.range ((items.length + (n - 1)) / n)).map fun i => (items.drop (i * n)).take n

/-- The byte at position `i` of a window, with brackets around it if it is the focus; the
    bracket takes the place of the space before the next byte. -/
def windowByte (focus i : Nat) (b : UInt8) : Checked String := do
  if i = focus then
    return "[" ++ Text.hexByte b ++ "]"
  let next ← Word.add focus 1
  return if i = next then Text.hexByte b else " " ++ Text.hexByte b

/-- The bytes of a row whose first position is `i`. -/
def windowBytes (focus i : Nat) : List UInt8 → Checked String
  | [] => .ok ""
  | b :: rest => do
    return (← windowByte focus i b) ++ (← windowBytes focus (i + 1) rest)

/-- The row of a window whose first position is `i`; an arrow points at that of the focus. -/
def windowRow (w : Shadow.Window) (i : Nat) (row : List UInt8) : Checked String := do
  let mark := if i ≤ w.focus ∧ w.focus < i + row.length then "=>" else "  "
  let addr ← Word.add w.shadowBegin i
  return mark ++ Text.hex addr ++ ":" ++ (← windowBytes w.focus i row)

/-- The rows of a window, from position `i` on. -/
def windowRows (w : Shadow.Window) (i : Nat) : List (List UInt8) → Checked (List String)
  | [] => .ok []
  | row :: rest => do
    return (← windowRow w i row) :: (← windowRows w (i + Shadow.Window.rowBytes) rest)

/-- The text padded with spaces to a width. -/
def padRight (width : Nat) (s : String) : String :=
  s ++ String.ofList (List.replicate (width - s.length) ' ')

/-- What the shadow bytes mean. -/
def legend : List String :=
  ["Shadow byte legend (one shadow byte represents 8 application bytes):",
    "  Addressable:           00",
    "  Partially addressable: 01 02 03 04 05 06 07"] ++
    Shadow.Magic.all.map fun m =>
      "  " ++ padRight 22 (m.description ++ ":") ++ " " ++ Text.hexByte m.byte

/-- The lines about the shadow. -/
def windowLines : Option Shadow.Window → Checked (List String)
  | none => .ok []
  | some w => do
    let rows ← windowRows w 0 (rowsOf Shadow.Window.rowBytes w.bytes)
    return ["", "Shadow bytes around the buggy address:"] ++ rows ++ legend

/-- The line that every report ends with. -/
def summary (name : String) : String :=
  "SUMMARY: ShadowHeap: " ++ name

/-- The text of a report. -/
def text (r : Report) : Checked String := do
  let verb := if r.access.isWrite then "WRITE" else "READ"
  let addr := Text.hex r.access.addr
  let description ← descriptionLines r.access.addr r.description
  let window ← windowLines r.window
  return unlines <|
    [ruler, s!"ERROR: ShadowHeap: {r.kind.name} on address {addr}",
      s!"{verb} of size {r.access.size} at {addr} thread T{r.threadId}",
      stackLine r.accessStack, ""] ++
    description ++ window ++ [summary r.kind.name]

end Report

namespace FreeError

open Report

/-- The lines that tell more about a wrong free. -/
def detailLines (heap : Heap) : FreeError → Checked (List String)
  | doubleFree _ _ _ allocated freed =>
    return [s!"freed by thread T{freed.tid} here:", stackLine freed.stack,
      s!"previously allocated by thread T{allocated.tid} here:", stackLine allocated.stack]
  | allocDeallocMismatch _ _ alloc dealloc allocStack =>
    return [s!"  allocated with {alloc.allocName}, deallocated with {dealloc.deallocName}",
      "allocated here:", stackLine allocStack,
      "HINT: if you don't care about these errors you may set " ++
        "SHADOWHEAP_OPTIONS=alloc_dealloc_mismatch=0"]
  | invalidFree addr _ => do
    match ← heap.findChunk addr with
    | none => return []
    | some chunk =>
      let location ← HeapLocation.of chunk addr
      let region ← regionText chunk
      return [s!"{Text.hex addr} is located {location.offset} bytes from the start of a " ++ region]
  | shadow _ => return []

/-- The text of a wrong free. -/
def text (heap : Heap) (e : FreeError) : Checked String := do
  let details ← e.detailLines heap
  return unlines <|
    [ruler, s!"ERROR: ShadowHeap: {e.name}: {e.message}"] ++ details ++ [summary e.name]

end FreeError

end GuardedHeap
