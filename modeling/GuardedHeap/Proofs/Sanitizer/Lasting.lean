import GuardedHeap.Proofs.Sanitizer.Scene
import GuardedHeap.Proofs.Scene.Tally

/-! # Lasting facts — what calls keep while nothing fails

    Only a handful of steps change chunks, fake stacks or the counters of
    chunks; whatever else a call does is no more than `Still` to a fact
    about them.  A fact that each of these steps keeps, in a state whose
    parts agree and whose scene is sound, is `Lasting`: the calls of
    threads, and with them whole runs without failures, keep it. -/

namespace GuardedHeap

open Quarantine (Entry)

namespace Sanitizer

/-- One counter has counted one more, and another one `amount` more. -/
def counted (one many : Counter) (amount : Nat) (s : Sanitizer) : Sanitizer :=
  { s with metrics := (s.metrics.inc one).add many amount }

variable {failing marked : Prop} {s s' s'' : Sanitizer} {ts ts' ts'' : List Thread}
  {hand hand' hand'' : Multiset Entry}

/-- Between the two states nothing has happened to chunks, the large blocks, the owners of fake
    stacks, or the counters of chunks; and the shadow bytes of chunks are as before, unless users
    mark them. -/
structure Still (marked : Prop) (s : Sanitizer) (ts : List Thread) (hand : Multiset Entry)
    (s' : Sanitizer) (ts' : List Thread) (hand' : Multiset Entry) : Prop where
  config : s'.config = s.config
  large : s'.heap.large = s.heap.large
  chunks : s'.heap.chunks = s.heap.chunks
  code : ¬ marked → ∀ b ∈ s.heap.chunks, ∀ a ∈ b.extent,
    s'.heap.shadow.code a = s.heap.shadow.code a
  waiting : (s'.scene ts' hand').waiting = (s.scene ts hand).waiting
  ids : (ts'.map (·.id)).Perm (ts.map (·.id))
  owners : s'.fakeStacks.map (·.owner) = s.fakeStacks.map (·.owner)
  counters : ∀ k ∈ Counter.ofChunks, s'.metrics.value k = s.metrics.value k

/-- No call of the operating system fails, the parts agree, and the scene is sound. -/
structure Steady (failing marked : Prop) (s : Sanitizer) (ts : List Thread) (hand : Multiset Entry) :
    Prop where
  calm : ¬ failing
  fit : s.Fit failing ts
  sound : Scene.Sound failing marked (s.scene ts hand)

/-- A fact about a sanitizer, its threads and the entries in a hand that no step undoes as long as
    nothing fails. -/
structure Lasting (failing marked : Prop) (K : Sanitizer → List Thread → Multiset Entry → Prop) :
    Prop where
  still : ∀ {s ts hand s' ts' hand'}, Still marked s ts hand s' ts' hand' → K s ts hand →
    K s' ts' hand'
  join : ∀ {s t ts hand}, t.batch.entries = [] → K s ts hand → K s (t :: ts) hand
  leave : ∀ {s t ts hand}, t.batch.entries = [] → (∀ o ∈ s.fakeStacks, o.owner ≠ t.id) →
    K s (t :: ts) hand → K s ts hand
  allocate : ∀ {s t ts hand size alignment api origin user u},
    Steady failing marked s (t :: ts) hand →
    Redzone.allocate s.config.redzoneOptions size alignment api origin ⟨s.heap, t.cache⟩ =
      .ok user u →
    K s (t :: ts) hand →
    K (counted .mallocs .bytesAllocated size { s with heap := u.heap }) (t :: ts) hand
  retire : ∀ {s ts hand p api origin f heap}, Steady failing marked s ts hand →
    Redzone.free s.config.redzoneOptions p api origin s.heap = .ok (some f) heap → K s ts hand →
    K (counted .frees .bytesFreed f.requestedSize { s with heap }) ts (f.entry ::ₘ hand)
  recycle : ∀ {s t ts hand e u}, Steady failing marked s (t :: ts) (e ::ₘ hand) →
    Redzone.recycle e ⟨s.heap, t.cache⟩ = .ok () u → K s (t :: ts) (e ::ₘ hand) →
    K (counted .recycledChunks .recycledBytes e.size { s with heap := u.heap }) (t :: ts) hand
  back : ∀ {s ts hand owner sizeLog f heap}, Steady failing marked s ts hand →
    owner ∈ ts.map (·.id) → FakeStack.create sizeLog s.heap = .ok f heap → K s ts hand →
    K { s with heap, fakeStacks := s.fakeStacks ++ [{ owner, stack := f }] } ts hand
  unback : ∀ {s ts hand heap o}, Steady failing marked s ts hand → o ∈ s.fakeStacks →
    o.stack.release s.heap = .ok () heap → K s ts hand →
    K { s with heap, fakeStacks := s.fakeStacks.filter (·.owner != o.owner) } ts hand

variable (failing marked) in
/-- Whatever lasts holds in the second state if it held in the first. -/
def Lasts (s : Sanitizer) (ts : List Thread) (hand : Multiset Entry) (s' : Sanitizer)
    (ts' : List Thread) (hand' : Multiset Entry) : Prop :=
  Steady failing marked s ts hand → ∀ K, Lasting failing marked K → K s ts hand → K s' ts' hand'

namespace Still

theorem trans (h : Still marked s ts hand s' ts' hand')
    (h' : Still marked s' ts' hand' s'' ts'' hand'') : Still marked s ts hand s'' ts'' hand'' where
  config := h'.config.trans h.config
  large := h'.large.trans h.large
  chunks := h'.chunks.trans h.chunks
  code hmarked b hb a ha :=
    (h'.code hmarked b (h.chunks ▸ hb) a ha).trans (h.code hmarked b hb a ha)
  waiting := h'.waiting.trans h.waiting
  ids := h'.ids.trans h.ids
  owners := h'.owners.trans h.owners
  counters k hk := (h'.counters k hk).trans (h.counters k hk)

/-- What differs is neither in the heap, nor in the quarantine, nor in the metrics. -/
theorem unseen (hconfig : s'.config = s.config) (hheap : s'.heap = s.heap)
    (hqueue : s'.quarantine = s.quarantine) (hstacks : s'.fakeStacks = s.fakeStacks)
    (hmetrics : s'.metrics = s.metrics) (hthreads : ts' = ts) :
    Still marked s ts hand s' ts' hand where
  config := hconfig
  large := hheap ▸ rfl
  chunks := hheap ▸ rfl
  code _ _ _ _ _ := hheap ▸ rfl
  waiting := by
    unfold scene
    rw [hqueue, hthreads]
  ids := by rw [hthreads]
  owners := by rw [hstacks]
  counters _ _ := hmetrics ▸ rfl

theorem refl (marked : Prop) (s : Sanitizer) (ts : List Thread) (hand : Multiset Entry) :
    Still marked s ts hand s ts hand :=
  .unseen rfl rfl rfl rfl rfl rfl

theorem lasts (h : Still marked s ts hand s' ts' hand') :
    Lasts failing marked s ts hand s' ts' hand' :=
  fun _ _ hK => hK.still h

/-- Only the pages are others. -/
theorem of_pages (h : s' = { s with heap := { s.heap with pages := s'.heap.pages } }) :
    Still marked s ts hand s' ts hand := by
  rw [h]
  exact ⟨rfl, rfl, rfl, fun _ _ _ _ _ => rfl, rfl, .refl _, rfl, fun _ _ => rfl⟩

/-- Which threads are in the list of the sanitizer itself does not matter. -/
theorem threads (s : Sanitizer) (list : List Thread) :
    Still marked s ts hand { s with threads := list } ts hand :=
  .unseen rfl rfl rfl rfl rfl rfl

/-- The order of threads does not matter. -/
theorem of_perm (h : ts.Perm ts') : Still marked s ts hand s ts' hand where
  config := rfl
  large := rfl
  chunks := rfl
  code _ _ _ _ _ := rfl
  waiting := congrArg Scene.waiting (scene_perm h).symm
  ids := (h.map _).symm
  owners := rfl
  counters _ _ := rfl

end Still

end Sanitizer

end GuardedHeap
