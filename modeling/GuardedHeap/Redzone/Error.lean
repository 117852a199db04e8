import GuardedHeap.Chunk
import GuardedHeap.Shadow.Basic

/-! # Wrong frees -/

namespace GuardedHeap

/-- A free was refused. -/
inductive FreeError where
  /-- The chunk is quarantined already. -/
  | doubleFree (addr tid requestedSize : Nat) (allocated freed : Origin)
  /-- The chunk was allocated by another family of calls. -/
  | allocDeallocMismatch (addr tid : Nat) (alloc dealloc : Api) (allocStack : StackId)
  /-- No chunk that a user has begins at the address. -/
  | invalidFree (addr tid : Nat)
  | shadow (error : ShadowError)
  deriving DecidableEq, Repr

namespace FreeError

/-- The wording of a wrong free. -/
def message : FreeError → String
  | doubleFree addr tid .. => s!"attempting double-free on {Text.hex addr} in thread T{tid}"
  | allocDeallocMismatch addr _ alloc dealloc _ =>
    s!"alloc-dealloc-mismatch ({alloc.allocName} vs {dealloc.allocName}) on {Text.hex addr}"
  | invalidFree addr tid =>
    "attempting free on address which was not malloc()-ed: " ++
      s!"{Text.hex addr} in thread T{tid}"
  | shadow error => error.message

/-- The name of the kind of wrong free, as reports show it. -/
def name : FreeError → String
  | doubleFree .. => "double-free"
  | allocDeallocMismatch .. => "alloc-dealloc-mismatch"
  | invalidFree .. => "bad-free"
  | shadow _ => "shadow-error"

/-- The address that was to be freed. -/
def addr? : FreeError → Option Nat
  | doubleFree addr .. => some addr
  | allocDeallocMismatch addr .. => some addr
  | invalidFree addr _ => some addr
  | shadow _ => none

end FreeError

end GuardedHeap
