import GuardedHeap.Report.Record
import GuardedHeap.Report.Text
import GuardedHeap.Sanitizer.Basic

/-! # Faults — errors for a machine

    Every error has a kind, which names the error and where it came from,
    outermost first: a reservation that failed under an allocation is
    `Alloc.Map.MapError`.  What a person reads is its message. -/

namespace GuardedHeap

/-- An error type whose errors have kinds and messages. -/
class Fault (ε : Type) where
  kind : ε → String
  message : ε → String

namespace Fault

instance : Fault Empty where
  kind e := nomatch e
  message e := nomatch e

instance : Fault MapError where
  kind _ := "MapError"
  message := MapError.message

instance : Fault ConfigError where
  kind
    | .unknownOption _ => "UnknownOption"
    | .invalidValue .. => "InvalidValue"
    | .malformed _ => "Malformed"
    | .invalidRedzone _ => "InvalidRedzone"
    | .outOfRange .. => "OutOfRange"
  message := ConfigError.message

instance : Fault SizeClassError where
  kind
    | .badStep .. => "BadStep"
    | .badSegment .. => "BadSegment"
    | .badMinSize _ => "BadMinSize"
    | .badMaxSize _ => "BadMaxSize"
    | .tooManyClasses _ => "TooManyClasses"
  message := SizeClassError.message

instance : Fault ShadowError where
  kind
    | .invalidRange .. => "InvalidRange"
    | .unaligned _ => "Unaligned"
    | .map e => "Map." ++ kind e
  message := ShadowError.message

instance : Fault AllocError where
  kind
    | .regionExhausted .. => "RegionExhausted"
    | .secondaryExhausted _ => "SecondaryExhausted"
    | .overflow .. => "Overflow"
    | .invalidAlignment _ => "InvalidAlignment"
    | .callocOverflow .. => "CallocOverflow"
    | .noSizeClass _ => "NoSizeClass"
    | .unknownPointer _ => "UnknownPointer"
    | .map e => "Map." ++ kind e
    | .shadow e => "Shadow." ++ kind e
  message := AllocError.message

instance : Fault FakeStackError where
  kind
    | .invalidClass _ => "InvalidClass"
    | .invalidSizeLog _ => "InvalidSizeLog"
    | .exhausted _ => "Exhausted"
    | .notAllocated _ => "NotAllocated"
    | .frameTooLarge .. => "FrameTooLarge"
    | .alloc e => "Alloc." ++ kind e
    | .shadow e => "Shadow." ++ kind e
  message := FakeStackError.message

instance : Fault FreeError where
  kind
    | .doubleFree .. => "DoubleFree"
    | .allocDeallocMismatch .. => "AllocDeallocMismatch"
    | .invalidFree .. => "InvalidFree"
    | .shadow e => "Shadow." ++ kind e
  message := FreeError.message

instance : Fault SanitizerError where
  kind
    | .config e => "Config." ++ kind e
    | .alloc e => "Alloc." ++ kind e
    | .free e => "Free." ++ kind e
    | .shadow e => "Shadow." ++ kind e
    | .fakeStack e => "FakeStack." ++ kind e
  message := SanitizerError.message

variable {ε : Type} [Fault ε]

/-- An error as members of an object. -/
def fields (e : ε) : List (String × Json) :=
  [("error", .str (kind e)), ("message", .str (message e))]

/-- An error as JSON. -/
def toJson (e : ε) : Json :=
  .object (fields e)

end Fault

/-- What is known about a wrong free beside the error itself. -/
def FreeError.particulars : FreeError → Json
  | .doubleFree _ tid requestedSize allocated freed =>
    .arr
      [.nat tid, .nat requestedSize, .nat allocated.stack, .nat allocated.tid, .nat freed.stack,
        .nat freed.tid]
  | .allocDeallocMismatch _ tid alloc dealloc allocStack =>
    .arr [.nat tid, .str alloc.name, .str dealloc.name, .nat allocStack]
  | .invalidFree _ tid => .arr [.nat tid]
  | .shadow _ => .null

/-- A wrong free as members of an object, with the report that is shown for it. -/
def FreeError.details (heap : Heap) (e : FreeError) : Checked (List (String × Json)) := do
  return [("name", .str e.name), ("addr", Json.option .nat e.addr?),
    ("text", .str (← e.text heap)), ("fields", e.particulars)]

/-- A wrong free as JSON. -/
def FreeError.toJson (heap : Heap) (e : FreeError) : Checked Json := do
  return .object (Fault.fields e ++ (← e.details heap))

/-- An error of a sanitizer as JSON. -/
def SanitizerError.toJson (s : Sanitizer) (e : SanitizerError) : Checked Json := do
  let details ←
    match e with
    | .free wrong => wrong.details s.heap
    | _ => pure []
  return .object (Fault.fields e ++ ("fatal", .bool (s.isFatal e)) :: details)

end GuardedHeap
