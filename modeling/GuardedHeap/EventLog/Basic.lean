import GuardedHeap.EventLog.Entry
import GuardedHeap.Text.Utf8

/-! # Event logs — entries that reach a threshold, line by line

    A log writes each entry whose level reaches its threshold as one line
    into a buffer.  A buffer takes any bytes; it can be read back as lines
    and as the entries that its lines record. -/

namespace GuardedHeap

namespace EventLog

/-- Bytes that were written piece by piece. -/
structure Buffer where
  pieces : Array (List UInt8) := #[]
  deriving Repr

namespace Buffer

/-- Write more bytes. -/
def write (b : Buffer) (bytes : List UInt8) : Buffer :=
  ⟨b.pieces.push bytes⟩

/-- All bytes written. -/
def bytes (b : Buffer) : List UInt8 :=
  b.pieces.toList.flatten

/-- The bytes as lines of text. -/
def lines (b : Buffer) : List String :=
  (Text.Utf8.lines (Text.Utf8.decode b.bytes)).map String.ofList

/-- The entries that lines record. -/
def entries (b : Buffer) : List Entry :=
  b.lines.filterMap Entry.parse?

/-- The entries of one event. -/
def events (b : Buffer) (event : String) : List Entry :=
  b.entries.filter (·.event == event)

end Buffer

end EventLog

/-- A log in memory. -/
structure EventLog where
  threshold : EventLog.Level
  buffer : EventLog.Buffer := {}

namespace EventLog

/-- Entries of this level are written. -/
def enabled (log : EventLog) (level : Level) : Bool :=
  log.threshold.rank ≤ level.rank

/-- Write the entry if its level reaches the threshold. -/
def emit (log : EventLog) (e : Entry) : EventLog :=
  if log.enabled e.level then
    { log with buffer := log.buffer.write (Text.Utf8.encode (e.line ++ "\n")) }
  else log

end EventLog

end GuardedHeap
