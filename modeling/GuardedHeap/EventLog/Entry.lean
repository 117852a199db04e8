import GuardedHeap.EventLog.Calendar
import GuardedHeap.Json.Printer
import GuardedHeap.Json.Reader
import GuardedHeap.Text.Hex

/-! # Log entries — one JSON record per event

    An entry has a time, a level and an event; what else it tells is
    optional, and an absent part is not written.  Reading is more
    tolerant than writing: members may come in any order, unknown ones are
    passed over, `null` stands for an absent part, and the seven parts may
    also come as an array. -/

namespace GuardedHeap.EventLog

/-- How grave an event is. -/
inductive Level where
  | debug
  | info
  | warn
  | error
  | fatal
  deriving DecidableEq, Repr

namespace Level

/-- The levels in increasing order. -/
def rank : Level → Nat
  | debug => 0
  | info => 1
  | warn => 2
  | error => 3
  | fatal => 4

/-- The name of the level in a record. -/
def name : Level → String
  | debug => "debug"
  | info => "info"
  | warn => "warn"
  | error => "error"
  | fatal => "fatal"

/-- Every level. -/
def all : List Level := [debug, info, warn, error, fatal]

/-- The level of a name. -/
def ofName? (s : String) : Option Level :=
  all.find? (·.name == s)

/-- The least level that is logged at a verbosity. -/
def ofVerbosity (verbosity : Nat) : Level :=
  if verbosity = 0 then warn else if verbosity = 1 then info else debug

theorem ofName?_name (l : Level) : ofName? l.name = some l := by
  cases l <;> rfl

end Level

/-- One event. -/
structure Entry where
  timestamp : String
  level : Level
  event : String
  tid : Option Nat := none
  addr : Option String := none
  size : Option Nat := none
  details : Option Json := none

namespace Entry

/-- An entry for an event at a moment. -/
def new (now : Calendar.Moment) (level : Level) (event : String) : Entry :=
  { timestamp := now.format, level, event }

/-- The entry with a thread number. -/
def withTid (e : Entry) (tid : Nat) : Entry :=
  { e with tid := some tid }

/-- The entry with an address. -/
def withAddr (e : Entry) (addr : Nat) : Entry :=
  { e with addr := some (Text.hex addr) }

/-- The entry with a size. -/
def withSize (e : Entry) (size : Nat) : Entry :=
  { e with size := some size }

/-- The entry with details. -/
def withDetails (e : Entry) (details : Json) : Entry :=
  { e with details := some details }

/-- The members of the record, in the order in which they are written. -/
def fields (e : Entry) : List (String × Json) :=
  [("timestamp", .str e.timestamp), ("level", .str e.level.name), ("event", .str e.event)] ++
    (e.tid.map fun n => ("tid", Json.nat n)).toList ++
    (e.addr.map fun s => ("addr", Json.str s)).toList ++
    (e.size.map fun n => ("size", Json.nat n)).toList ++
    (e.details.map fun d => ("details", d)).toList

/-- The record on one line. -/
def line (e : Entry) : String :=
  (Json.obj e.fields).print

/-! ## Reading -/

open Json (Spelling)

/-- The string that is spelled. -/
def readString? : Spelling → Option String
  | .str units => Json.stringOfUnits? units
  | _ => none

/-- The natural number below `limit` that is spelled. -/
def readNat? (limit : Nat) : Spelling → Option Nat
  | .number n =>
    match n.toJson? with
    | some (.int i) => if 0 ≤ i ∧ i < limit then some i.toNat else none
    | _ => none
  | _ => none

/-- The level that is spelled: its name, alone or as the one key of an object whose value is
    `null`. -/
def readLevel? : Spelling → Option Level
  | .str units => (Json.stringOfUnits? units).bind Level.ofName?
  | .obj [(key, .null)] => (Json.stringOfUnits? key).bind Level.ofName?
  | _ => none

/-- A part that may be absent: `null` is nothing. -/
def readOptional? {α : Type} (read : Spelling → Option α) : Spelling → Option (Option α)
  | .null => some none
  | x => (read x).map some

/-- How deep the details of an entry may nest. -/
def detailsDepth : Nat := Json.maxDepth - 1

/-- The parts that have been read. -/
structure Parts where
  timestamp : Option String := none
  level : Option Level := none
  event : Option String := none
  tid : Option (Option Nat) := none
  addr : Option (Option String) := none
  size : Option (Option Nat) := none
  details : Option (Option Json) := none

namespace Parts

/-- Read the member `key`.  One that was read before, even as absent, must not come again. -/
def add (p : Parts) (key : String) (x : Spelling) : Option Parts :=
  match key with
  | "timestamp" =>
    if p.timestamp.isSome then none
    else (readString? x).map fun v => { p with timestamp := some v }
  | "level" =>
    if p.level.isSome then none
    else (readLevel? x).map fun v => { p with level := some v }
  | "event" =>
    if p.event.isSome then none
    else (readString? x).map fun v => { p with event := some v }
  | "tid" =>
    if p.tid.isSome then none
    else (readOptional? (readNat? Word.halfLimit) x).map fun v => { p with tid := some v }
  | "addr" =>
    if p.addr.isSome then none
    else (readOptional? readString? x).map fun v => { p with addr := some v }
  | "size" =>
    if p.size.isSome then none
    else (readOptional? (readNat? Word.limit) x).map fun v => { p with size := some v }
  | "details" =>
    if p.details.isSome then none
    else
      (readOptional? (·.toJson? detailsDepth) x).map fun v => { p with details := some v }
  | _ => some p

/-- Read all members. -/
def addAll (p : Parts) : List (List Nat × Spelling) → Option Parts
  | [] => some p
  | (key, x) :: rest =>
    match Json.stringOfUnits? key with
    | none => none
    | some key =>
      match p.add key x with
      | none => none
      | some p => p.addAll rest

/-- The entry, if its time, level and event were read. -/
def entry? (p : Parts) : Option Entry := do
  return {
    timestamp := ← p.timestamp
    level := ← p.level
    event := ← p.event
    tid := p.tid.join
    addr := p.addr.join
    size := p.size.join
    details := p.details.join
  }

end Parts

/-- The names of the parts, in the order of an array. -/
def partNames : List String :=
  ["timestamp", "level", "event", "tid", "addr", "size", "details"]

/-- The parts that an array gives, one item for each. -/
def partsOfItems? (p : Parts) : List String → List Spelling → Option Parts
  | [], [] => some p
  | name :: names, x :: xs =>
    match p.add name x with
    | none => none
    | some p => partsOfItems? p names xs
  | _, _ => none

/-- The entry that a line records. -/
def parse? (line : String) : Option Entry :=
  match Spelling.ofText? line.toList with
  | some (.obj fields) => (({} : Parts).addAll fields).bind Parts.entry?
  | some (.arr items) => (partsOfItems? {} partNames items).bind Parts.entry?
  | _ => none

end Entry

end GuardedHeap.EventLog
