import GuardedHeap.Json.Field
import GuardedHeap.Program.Call

/-! # Scripts — calls written as JSON

    A call is an object whose member `do` is the name that programs know
    the call by.  The address that a call is about is resolved by whoever
    runs the script, since it may be the result of an earlier call. -/

namespace GuardedHeap

/-- The hook with a name. -/
def DeathCallback.ofName? : String → Option DeathCallback
  | "plain" => some .plain
  | "nested" => some .nested
  | _ => none

/-- The call that an object describes, about an address. -/
def Call.ofJson? (addr : Nat) (j : Json) : Option Call :=
  let size := j.word "size"
  let alignment := j.wordOr 8 "align"
  let classId := j.word "class"
  let realStack := j.word "real"
  let stack := j.halfWord "stack"
  match j.text "do" with
  | "malloc" => some (.malloc size)
  | "calloc" => some (.calloc (j.wordOr 1 "count") size)
  | "realloc" => some (.realloc addr size)
  | "memalign" => some (.memalign alignment size)
  | "new" => some (.new size)
  | "new_array" => some (.newArray size)
  | "allocate_chunk" => some (.allocateChunk size alignment stack)
  | "fake_alloc" => some (.allocateFrame classId size realStack)
  | "free" => some (.free addr)
  | "free_chunk" => some (.freeChunk addr stack)
  | "delete" => some (.delete addr)
  | "delete_array" => some (.deleteArray addr)
  | "poison" => some (.poison addr size)
  | "unpoison" => some (.unpoison addr size)
  | "is_poisoned" => some (.isPoisoned addr)
  | "report_error" => some (.reportError addr (j.flag "write") size)
  | "fake_free" => some (.freeFrame addr classId size realStack)
  | "no_return" => some .noReturn
  | "exit_code" => some (.setExitCode (j.signedHalfOr 0 "code"))
  | "callback" => some (.setCallback (DeathCallback.ofName? (j.text "kind")))
  | "estimated" => some (.estimatedSize size)
  | "ownership" => some (.owns addr)
  | "allocated_size" => some (.allocatedSize addr)
  | "current" => some .currentBytes
  | "heap_size" => some .heapSize
  | "free_bytes" => some .freeBytes
  | "print_stats" => some .printStats
  | _ => none

/-- An answer as JSON. -/
def Call.Answer.toJson : Call.Answer → Json
  | .unit => .null
  | .addr a => .nat a
  | .nat n => .nat n
  | .int n => .int n
  | .bool b => .bool b

end GuardedHeap
