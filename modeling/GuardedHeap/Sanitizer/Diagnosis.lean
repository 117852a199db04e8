import GuardedHeap.Report.Record
import GuardedHeap.Report.Text
import GuardedHeap.Sanitizer.Client

/-! # Diagnosis — from a fault to the last words of a process

    A process that dies says what happened as text, logs it as a fatal
    event, runs the hook that the user has left, and exits with the code
    that is set. -/

namespace GuardedHeap

namespace Sanitizer

/-- Report an access by a thread. -/
def classify {ε : Type} (tid addr : Nat) (isWrite : Bool) (size : Nat) :
    Act ε Sanitizer Report := do
  let stack ← takeTrace
  let s ← get
  let report ← Report.classify s.heap (s.fakeStacks.map (·.stack)) { addr, size, isWrite } tid stack
  return report

/-- What a dying process says and logs. -/
structure LastWords where
  text : String
  event : String
  details : Json

/-- The last words about a bad access. -/
def wordsOfReport (r : Report) : Checked LastWords := do
  return { text := ← r.text, event := "bug_report", details := r.toJson }

/-- The last words about a failed call. -/
def wordsOfError (s : Sanitizer) (e : SanitizerError) : Checked LastWords := do
  let text ←
    match e with
    | .free wrong => wrong.text s.heap
    | other => pure (Report.unlines [Report.ruler, "ERROR: ShadowHeap: " ++ other.message])
  return { text, event := "fatal_error", details := .object [("error", .str e.message)] }

/-- Log the last words. -/
def emitLastWords {ε : Type} (w : LastWords) : Act ε Sanitizer Unit :=
  emit .fatal w.event (·.withDetails w.details)

end Sanitizer

/-- Whether a report has begun; only the first one that tries may go on. -/
structure ReportGuard where
  reporting : Bool := false
  deriving DecidableEq, Repr

/-- Begin a report, if none has begun. -/
def ReportGuard.tryBegin (g : ReportGuard) : Bool × ReportGuard :=
  (!g.reporting, { reporting := true })

end GuardedHeap
