import GuardedHeap.Sanitizer.Allocation
import GuardedHeap.Sanitizer.Diagnosis
import GuardedHeap.Sanitizer.Frames

/-! # Processes — one sanitizer, used by the threads of a process

    The sanitizer of a process is built from the option text at the first
    call that needs it, and stays for good.  A thread registers at its
    first call that needs its own state, which the thread holds on to until
    it ends.  Everything that is logged goes to standard error at once.

    A fatal error ends the process from within the call: the last words,
    the death callback, and the exit.  The dying thread has lent its state
    to that call, so a callback that calls back in registers the thread a
    second time; that registration ends with the process. -/

namespace GuardedHeap

/-- The hook that runs before a dying process exits. -/
inductive DeathCallback where
  /-- Write a line. -/
  | plain
  /-- Allocate a chunk, write a line about it, and free it. -/
  | nested
  deriving DecidableEq, Repr

/-- A process. -/
structure Program where
  /-- The option text. -/
  options : String
  /-- The memory that the process begins with. -/
  pages : Pages := {}
  /-- The sanitizer, once it is built. -/
  built : Option Sanitizer := none
  /-- The threads that hold a state of their own, and the ids of their registrations. -/
  registered : List (Nat × Nat) := []
  callback : Option DeathCallback := none
  report : ReportGuard := {}
  stderr : String := ""

/-- The process exits with a code. -/
structure Exit where
  code : Int
  deriving DecidableEq, Repr

namespace Exit

/-- The exit that is no failure. -/
def normal : Exit := ⟨0⟩

/-- The code that the parent of a process sees. -/
def status (e : Exit) : Nat :=
  (e.code % 256).toNat

end Exit

namespace Program

/-- Write to standard error. -/
def say (text : String) : Act Exit Program Unit :=
  modify fun p => { p with stderr := p.stderr ++ text }

/-- Write what the event log holds to standard error, and empty it. -/
def flushLog : Act Exit Program Unit :=
  modify fun p =>
    match p.built with
    | none => p
    | some s =>
      let logged := String.ofList (Text.Utf8.decode s.log.buffer.bytes)
      { p with
        built := some { s with log := { s.log with buffer := {} } }
        stderr := p.stderr ++ logged }

/-- Build the sanitizer of a process in its memory. -/
def build (options : String) (pages : Pages) : Except SanitizerError (Checked Sanitizer) :=
  match Config.parse options with
  | .error e => .error (.config e)
  | .ok config =>
    match Sanitizer.init config { threshold := config.logThreshold } .absent {} pages with
    | .ok s _ => .ok (.ok s)
    | .error (.refused e) _ => .error e
    | .error .stopped _ => .ok (.error .overrun)

/-- The sanitizer, built at the first call. -/
def sanitizer : Act Exit Program Sanitizer := do
  let p ← get
  match p.built with
  | some s => return s
  | none =>
    match build p.options p.pages with
    | .error e =>
      say s!"ShadowHeap: failed to initialize: {e.message}\n"
      Act.refuse ⟨1⟩
    | .ok made =>
      let s ← made
      set { p with built := some s }
      flushLog
      Act.orStop (← get).built

/-- An action on the sanitizer; what it logs is written out. -/
def onSanitizer {ε α : Type} (act : Act ε Sanitizer α) : Act Exit Program (Except ε α) := do
  let s ← sanitizer
  let p ← get
  match act s with
  | .ok a s =>
    set { p with built := some s }
    flushLog
    return .ok a
  | .error (.refused e) s =>
    set { p with built := some s }
    flushLog
    return .error e
  | .error .stopped _ => Act.stop

/-- An action on the sanitizer that never refuses. -/
def onSanitizerSafely {α : Type} (act : Act Empty Sanitizer α) : Act Exit Program α := do
  match ← onSanitizer act with
  | .ok a => return a
  | .error e => nomatch e

/-! ## Dying -/

/-- The number of bytes that a nested callback allocates. -/
def nestedSize : Nat := 16

/-- Run the death callback on a thread that has lent its state: a nested one registers the
    thread anew, and it stays registered. -/
def runCallback : Act Exit Program (Option Nat) := do
  match (← get).callback with
  | none => return none
  | some .plain =>
    say "CALLBACK\n"
    return none
  | some .nested =>
    match ← onSanitizer Sanitizer.register with
    | .error _ => Act.stop
    | .ok id =>
      let allocation := Sanitizer.Client.allocate nestedSize Shadow.granule .malloc 0
      match ← onSanitizer (Sanitizer.asThread id allocation) with
      | .error _ => Act.stop
      | .ok user =>
        let size := (← sanitizer).allocatedSize user
        say s!"CALLBACK {Text.hex user} {size}\n"
        let _ ← onSanitizer (Sanitizer.asThread id (Sanitizer.Client.free user .malloc 0))
        return some id

/-- End the process with last words. -/
def terminate {α : Type} (words : Checked Sanitizer.LastWords) : Act Exit Program α := do
  let words ← words
  let p ← get
  let (first, report) := p.report.tryBegin
  if !first then
    -- Another report has begun and will end the process.
    Act.stop
  set { p with report }
  say words.text
  onSanitizerSafely (Sanitizer.emitLastWords words)
  let again ← runCallback
  let code := (← sanitizer).exitCode
  match again with
  | some id =>
    let _ ← onSanitizer (Sanitizer.unregister id)
  | none => pure ()
  Act.refuse ⟨code⟩

/-- End the process because of an error. -/
def dieOf {α : Type} (e : SanitizerError) : Act Exit Program α := do
  terminate ((← sanitizer).wordsOfError e)

/-! ## Threads -/

/-- The registration that a thread holds. -/
def registration? (p : Program) (thread : Nat) : Option Nat :=
  p.registered.lookup thread

/-- The registration of a thread, made at its first call. -/
def registration (thread : Nat) : Act Exit Program Nat := do
  let _ ← sanitizer
  match (← get).registration? thread with
  | some id => return id
  | none =>
    match ← onSanitizer Sanitizer.register with
    | .error e => dieOf e
    | .ok id =>
      modify fun p => { p with registered := (thread, id) :: p.registered }
      return id

/-- A call of a thread on its own and the shared state. -/
def asThread {ε α : Type} (thread : Nat) (act : Act ε Sanitizer.Client α) :
    Act Exit Program (Except ε α) := do
  let id ← registration thread
  onSanitizer (Sanitizer.asThread id act)

/-- A thread ends: it is unregistered if it was registered. -/
def endThread (thread : Nat) : Act Exit Program Unit := do
  match (← get).registration? thread with
  | none => pure ()
  | some id =>
    modify fun p => { p with registered := p.registered.filter (·.1 != thread) }
    match ← onSanitizer (Sanitizer.unregister id) with
    | .ok () => pure ()
    | .error e => dieOf e

end Program

end GuardedHeap
