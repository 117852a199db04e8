import GuardedHeap.Json.Basic
import GuardedHeap.Report.Basic

/-! # Report records — reports for a machine -/

namespace GuardedHeap

/-- The class of a block as JSON. -/
def BlockClass.toJson : BlockClass → Json
  | small id => .object [("class", .nat id)]
  | large => .str "large"

/-- A chunk as JSON. -/
def Chunk.toJson (c : Chunk) : Json :=
  .object
    [("block", .nat c.block), ("user_beg", .nat c.record.userBegin),
      ("requested_size", .nat c.record.requestedSize), ("actual_size", .nat c.record.actualSize),
      ("class", c.kind.toJson), ("state", .str c.record.state.name),
      ("api", .str c.record.api.name), ("alloc_stack", .nat c.record.allocated.stack),
      ("alloc_tid", .nat c.record.allocated.tid), ("free_stack", .nat c.record.freed.stack),
      ("free_tid", .nat c.record.freed.tid)]

/-- A frame as JSON. -/
def FakeFrame.toJson (f : FakeFrame) : Json :=
  .object
    [("addr", .nat f.addr), ("class_id", .nat f.classId), ("slot", .nat f.slot),
      ("real_stack", .nat f.realStack), ("allocated", .bool f.allocated)]

/-- A description as JSON. -/
def Description.toJson : Description → Json
  | heap l =>
    .object
      [("type", .str "heap"), ("chunk", l.chunk.toJson), ("offset", .int l.offset),
        ("relation", .str l.relation.name), ("distance", .nat l.distance)]
  | fakeFrame f offset =>
    .object [("type", .str "fake_frame"), ("frame", f.toJson), ("offset", .nat offset)]

/-- A window as JSON. -/
def Shadow.Window.toJson (w : Shadow.Window) : Json :=
  .object
    [("shadow_beg", .nat w.shadowBegin), ("app_beg", .nat w.appBegin), ("focus", .nat w.focus),
      ("bytes", .arr (w.bytes.map fun b => .nat b.toNat))]

/-- A report as JSON. -/
def Report.toJson (r : Report) : Json :=
  .object
    [("kind", .str r.kind.name),
      ("access", .object
        [("addr", .nat r.access.addr), ("size", .nat r.access.size),
          ("is_write", .bool r.access.isWrite)]),
      ("thread_id", .nat r.threadId), ("access_stack", .nat r.accessStack),
      ("shadow_byte", .nat r.shadowByte.toNat),
      ("description", Json.option Description.toJson r.description),
      ("shadow_window", Json.option Shadow.Window.toJson r.window)]

end GuardedHeap
