import GuardedHeap.Proofs.Act
import GuardedHeap.Sanitizer.Allocation
import GuardedHeap.Sanitizer.Diagnosis

/-! # Blind views — what calls leave alone

    Most of what a call does happens to the heap, to the log, to the traces
    and to counters.  A view that shows none of these (`Sanitizer.Blind`),
    nor the cache of the thread at work (`Client.Blind`), shows the same
    before and after whatever is made of such steps. -/

namespace GuardedHeap

open Act
open Quarantine (Entry)

/-- The counters of frames. -/
def Counter.ofFrames : List Counter :=
  [fakeFramesAllocated, fakeFramesFreed, fakeFramesCollected]

namespace Sanitizer

variable {ε α β : Type} {f : Sanitizer → β}

/-- The view shows neither the heap, nor the log and the traces, nor the code to exit with, and of
    the counters at most those of frames. -/
def Blind (f : Sanitizer → β) : Prop :=
  ∀ (s : Sanitizer) (heap : Heap) (metrics : Metrics) (log : EventLog) (captures : Nat) (exitCode : Int),
    (∀ k ∈ Counter.ofFrames, metrics.value k = s.metrics.value k) →
    f { s with heap, metrics, log, captures, exitCode } = f s

namespace Blind

theorem fixes_countBy (h : Blind f) {k : Counter} (hk : k ∉ Counter.ofFrames) (n : Nat) :
    Fixes f (countBy k n : Act ε Sanitizer Unit) := by
  refine fixes_modify fun s => h s s.heap _ s.log s.captures s.exitCode fun k' hk' => ?_
  exact (Metrics.value_add ..).trans (if_neg fun heq : k' = k => hk (heq ▸ hk'))

theorem fixes_count (h : Blind f) {k : Counter} (hk : k ∉ Counter.ofFrames) :
    Fixes f (count k : Act ε Sanitizer Unit) :=
  h.fixes_countBy hk 1

theorem fixes_emit (h : Blind f) (level : EventLog.Level) (event : String)
    (more : EventLog.Entry → EventLog.Entry) :
    Fixes f (emit level event more : Act ε Sanitizer Unit) :=
  fixes_get.bind fun _ => fixes_orStop.bind fun _ => fixes_modify fun s =>
    h s s.heap s.metrics _ s.captures s.exitCode fun _ _ => rfl

/-- A stack that is captured is not seen. -/
theorem fixes_takeTrace (h : Blind f) : Fixes f (takeTrace : Act ε Sanitizer StackId) :=
  fixes_modifyGet fun s => h s s.heap s.metrics s.log _ s.exitCode fun _ _ => rfl

theorem fixes_origin (h : Blind f) (tid : Nat) (stack : StackId) :
    Fixes f (origin tid stack : Act ε Sanitizer Origin) := by
  unfold origin
  by_cases hstack : stack = 0
  · simp only [hstack, if_true]
    exact h.fixes_takeTrace.bind fun _ => fixes_pure
  · simp only [hstack, if_false]
    exact fixes_pure.bind fun _ => fixes_pure

theorem fixes_onHeap (h : Blind f) (act : Act ε Heap α) : Fixes f (onHeap act) :=
  fixes_onPart fun s heap => h s heap s.metrics s.log s.captures s.exitCode fun _ _ => rfl

/-- A wrong free that is noted is not seen. -/
theorem fixes_noteWrongFree (h : Blind f) (tid : Nat) (e : FreeError) (level : EventLog.Level) :
    Fixes f (Client.noteWrongFree tid e level : Act ε Sanitizer Unit) := by
  unfold Client.noteWrongFree
  cases hcounter : (Client.wrongFreeEvent e).1 with
  | none =>
      simp only [hcounter]
      exact fixes_pure.bind fun _ => h.fixes_emit _ _ _
  | some k =>
      have hother : k ∉ Counter.ofFrames := by
        cases e <;> cases hcounter <;> decide
      simp only [hcounter]
      exact (h.fixes_count hother).bind fun _ => h.fixes_emit _ _ _

theorem fixes_userMark (h : Blind f) (mark : Act ShadowError Shadow Unit) : Fixes f (userMark mark) :=
  fixes_get.bind fun _ => fixes_ite fixes_pure
    ((h.fixes_count (by decide)).bind fun _ => h.fixes_onHeap _)

theorem fixes_classify (h : Blind f) (tid addr : Nat) (isWrite : Bool) (size : Nat) :
    Fixes f (classify tid addr isWrite size : Act ε Sanitizer Report) :=
  h.fixes_takeTrace.bind fun _ => fixes_get.bind fun _ => fixes_liftM

theorem fixes_reportStats (h : Blind f) : Fixes f (reportStats : Act ε Sanitizer String) :=
  Fixes.bind (fixes_get.bind fun _ => (h.fixes_emit _ _ _).bind fun _ => fixes_pure) fun _ => fixes_pure

theorem fixes_setExitCode (h : Blind f) (code : Int) :
    Fixes f (setExitCode code : Act ε Sanitizer Int) :=
  fixes_modifyGet fun s => h s s.heap s.metrics s.log s.captures _ fun _ _ => rfl

end Blind

namespace Client

variable {g : Client → β}

/-- The view is blind for the shared state, and does not show the cache of the thread. -/
structure Blind (g : Client → β) : Prop where
  shared : ∀ c : Client, Sanitizer.Blind fun s => g { c with shared := s }
  cache : ∀ (c : Client) (cache : Cache), g { c with thread := { c.thread with cache } } = g c

/-- What the shared state shows the client shows. -/
theorem blind_shared (h : Sanitizer.Blind f) : Blind fun c => f c.shared :=
  ⟨fun _ => h, fun _ _ => rfl⟩

/-- The view does not show the quarantine and the batch of the thread, either. -/
structure BlindToQuarantine (g : Client → β) : Prop extends Blind g where
  held : ∀ (c : Client) (ev : Quarantine.Eviction), g (setQuarantine ev c) = g c

/-- An action on the shared state leaves alone what a view shows of that. -/
theorem fixes_onShared {act : Act ε Sanitizer α}
    (h : ∀ c : Client, Fixes (fun s => g { c with shared := s }) act) : Fixes g (onShared act) := by
  intro c
  have hc := h c c.shared
  unfold after at hc ⊢
  unfold onShared onPart
  cases hact : act c.shared with
  | ok a t => rwa [hact] at hc
  | error e t => rwa [hact] at hc

namespace Blind

theorem fixes_onSession (h : Blind g) (act : Act ε Heap.Session α) : Fixes g (onSession act) :=
  fixes_onPart fun c t => (h.cache _ t.cache).trans
    (h.shared c c.shared t.heap c.shared.metrics c.shared.log c.shared.captures c.shared.exitCode
      fun _ _ => rfl)

/-- Two counters of chunks count, and the call goes on. -/
theorem fixes_counts (h : Blind g) (one many : Counter) (amount : Nat)
    (hone : one ∉ Counter.ofFrames) (hmany : many ∉ Counter.ofFrames) {next : Act ε Client α}
    (hnext : Fixes g next) :
    Fixes g (onShared (count one) >>= fun _ => onShared (countBy many amount) >>= fun _ => next) :=
  (fixes_onShared fun c => (h.shared c).fixes_count hone).bind fun _ =>
    (fixes_onShared fun c => (h.shared c).fixes_countBy hmany _).bind fun _ => hnext

/-- What is blind sees no allocation. -/
theorem fixes_allocate (h : Blind g) (size alignment : Nat) (api : Api) (stack : StackId) :
    Fixes g (allocate size alignment api stack) :=
  fixes_get.bind fun _ => (fixes_onShared fun c => (h.shared c).fixes_origin _ _).bind fun _ =>
    (h.fixes_onSession _).bind fun _ => h.fixes_counts _ _ _ (by decide) (by decide) fixes_pure

theorem fixes_calloc (h : Blind g) (times size : Nat) : Fixes g (calloc times size) :=
  fixes_get.bind fun _ => (fixes_onShared fun c => (h.shared c).fixes_origin _ _).bind fun _ =>
    (h.fixes_onSession _).bind fun _ => h.fixes_counts _ _ _ (by decide) (by decide) fixes_pure

/-- What is recycled is not seen. -/
theorem fixes_recycle (h : Blind g) (es : List Entry) : Fixes g (recycle es) := by
  induction es with
  | nil => exact fixes_pure
  | cons e rest ih =>
      exact (h.fixes_onSession _).bind fun _ => h.fixes_counts _ _ _ (by decide) (by decide) ih

theorem fixes_refuseFree (h : Blind g) (e : FreeError) :
    Fixes g (refuseFree e : Act SanitizerError Client α) :=
  fixes_get.bind fun _ => (fixes_onShared fun c => (h.shared c).fixes_noteWrongFree _ _ _).bind fun _ =>
    fixes_refuse

end Blind

namespace BlindToQuarantine

theorem fixes_quarantine (h : BlindToQuarantine g) (e : Entry) : Fixes g (quarantine e) := by
  unfold quarantine
  refine fixes_get_bind fun c => ?_
  cases hput : c.shared.quarantine.put c.thread.batch e with
  | error o => rfl
  | ok ev => exact h.held c ev

theorem fixes_drainBatch (h : BlindToQuarantine g) : Fixes g drainBatch := by
  unfold drainBatch
  refine fixes_get_bind fun c => ?_
  cases hdrain : c.shared.quarantine.drain c.thread.batch with
  | error o => rfl
  | ok ev => exact h.held c ev

/-- What is blind to the quarantine, too, sees no free. -/
theorem fixes_free (h : BlindToQuarantine g) (p : Nat) (api : Api) (stack : StackId) :
    Fixes g (free p api stack) := by
  refine fixes_get.bind fun c => (fixes_onShared fun c => (h.shared c).fixes_origin _ _).bind fun o =>
    (fixes_onShared fun c => (h.shared c).fixes_onHeap _).bind fun result => ?_
  cases result with
  | error e => exact h.fixes_refuseFree e
  | ok freed =>
      cases freed with
      | none => exact fixes_pure
      | some freed =>
          have hrest := h.fixes_counts .frees .bytesFreed freed.requestedSize (by decide) (by decide)
            ((h.fixes_quarantine freed.entry).mapError (g := SanitizerError.alloc) |>.bind fun evicted =>
              (h.fixes_recycle evicted).mapError (g := SanitizerError.alloc))
          cases hwarning : freed.warning with
          | none =>
              simp only [hwarning]
              exact hrest
          | some w =>
              simp only [hwarning]
              exact (fixes_onShared fun c => (h.shared c).fixes_noteWrongFree _ w .warn).bind fun _ => hrest

/-- A chunk that moves is not seen. -/
theorem fixes_move (h : BlindToQuarantine g) (p size : Nat) : Fixes g (move p size) := by
  refine fixes_get.bind fun c => ?_
  cases movable c p with
  | error e => exact h.fixes_refuseFree e
  | ok old =>
      refine (h.fixes_allocate _ _ _ _).mapError.bind fun fresh =>
        (fixes_onShared fun c => (h.shared c).fixes_onHeap _).bind fun _ =>
          (h.fixes_free _ _ _).attempt.bind fun result => ?_
      cases result with
      | error e => exact (h.fixes_free _ _ _).attempt.bind fun _ => fixes_refuse
      | ok _ =>
          exact (fixes_onShared fun c => (h.shared c).fixes_count (by decide)).bind fun _ => fixes_pure

/-- What is blind to the quarantine, too, sees no reallocation. -/
theorem fixes_reallocate (h : BlindToQuarantine g) (p size : Nat) : Fixes g (reallocate p size) :=
  fixes_ite (h.fixes_allocate _ _ _ _).mapError
    (fixes_ite ((h.fixes_free _ _ _).bind fun _ => fixes_pure) (h.fixes_move p size))

end BlindToQuarantine

end Client

end Sanitizer

end GuardedHeap
