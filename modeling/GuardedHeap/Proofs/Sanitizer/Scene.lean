import GuardedHeap.Proofs.FakeStack.Calls
import GuardedHeap.Proofs.Quarantine
import GuardedHeap.Proofs.Redzone
import GuardedHeap.Sanitizer.Client

/-! # Sanitizers — who holds what

    The free blocks are in the regions and in the caches of the threads,
    the freed chunks in the queue and in their batches, and every fake
    stack has a block.  A thread at work has been taken out of the list of
    threads, and has perhaps some entries in its hand; `Sanitizer.scene`
    has both as parameters, and does not care for the order of threads. -/

namespace GuardedHeap

open Quarantine (Entry)

namespace Sanitizer

/-- The free blocks in the caches of some threads. -/
def cached (ts : List Thread) : BlockClass → Multiset Nat
  | .large => 0
  | .small c => (ts.flatMap (·.cache.held c) : Multiset Nat)

/-- The freed chunks in the batches of some threads. -/
def batched (ts : List Thread) : Multiset Entry :=
  (ts.flatMap (·.batch.entries) : Multiset Entry)

/-- The blocks of the fake stacks. -/
def backing (s : Sanitizer) : Multiset Block :=
  (s.fakeStacks.map (·.stack.block) : Multiset Block)

/-- The bytes of the claimed frames. -/
def claimed (s : Sanitizer) : Set Nat :=
  {a | ∃ o ∈ s.fakeStacks, a ∈ o.stack.claims}

/-- The freed chunks of the queue and of all batches. -/
def waiting (s : Sanitizer) : List Entry :=
  s.quarantine.queue ++ s.threads.flatMap (·.batch.entries)

/-- What is held outside of the session of a thread: by the other threads, and in its hand. -/
def holders (s : Sanitizer) (others : List Thread) (hand : Multiset Entry) : Holders where
  idle := cached others
  waiting := hand + ((s.quarantine.queue : Multiset Entry) + batched others)
  backing := s.backing
  claimed := s.claimed

/-- The scene of a sanitizer with some threads and entries in a hand. -/
def scene (s : Sanitizer) (ts : List Thread) (hand : Multiset Entry) : Scene where
  blocks := s.heap.blocks
  opened := s.heap.opened
  bytes := s.heap.contents
  idle
    | .large => 0
    | .small c => (s.heap.free c : Multiset Nat) + cached ts (.small c)
  waiting := hand + ((s.quarantine.queue : Multiset Entry) + batched ts)
  backing := s.backing
  claimed := s.claimed

/-- The parts of a sanitizer with some threads agree. -/
structure Fit (failing : Prop) (s : Sanitizer) (ts : List Thread) : Prop where
  heap : s.heap.WF
  calm : ¬ failing → s.heap.pages.armed = none
  clock : s.clock.isSome = true
  config : s.config.validate = .ok ()
  classes : s.heap.classes = s.config.sizeClasses
  queue : s.quarantine.Counted
  cache : ∀ t ∈ ts, t.cache.lists.size = s.heap.classes.count
  batch : ∀ t ∈ ts, t.batch.Counted
  ids_nodup : (ts.map (·.id)).Nodup
  id_lt : ∀ t ∈ ts, t.id < s.registrations
  stack : ∀ o ∈ s.fakeStacks, o.stack.WF
  owners_nodup : (s.fakeStacks.map (·.owner)).Nodup
  owner_lt : ∀ o ∈ s.fakeStacks, o.owner < s.registrations

variable {failing marked : Prop} {s s' : Sanitizer} {t : Thread} {ts ts' : List Thread}
  {hand : Multiset Entry}

theorem waiting_scene : (s.scene s.threads 0).waiting = (s.waiting : Multiset Entry) := by
  unfold waiting
  rw [← Multiset.coe_add]
  exact zero_add _

/-! ## Order -/

theorem cached_cons {c : Nat} :
    cached (t :: ts) (.small c) = (t.cache.held c : Multiset Nat) + cached ts (.small c) := by
  simp only [cached, List.flatMap_cons, Multiset.coe_add]

theorem batched_cons : batched (t :: ts) = (t.batch.entries : Multiset Entry) + batched ts := by
  unfold batched
  rw [List.flatMap_cons, Multiset.coe_add]

theorem scene_perm (h : ts.Perm ts') : s.scene ts hand = s.scene ts' hand := by
  have hcached : cached ts = cached ts' := by
    funext k
    cases k with
    | large => rfl
    | small c => exact Multiset.coe_eq_coe.mpr (h.flatMap_right _)
  have hbatched : batched ts = batched ts' := Multiset.coe_eq_coe.mpr (h.flatMap_right _)
  unfold scene
  rw [hcached, hbatched]

theorem Fit.perm (hfit : s.Fit failing ts) (h : ts.Perm ts') : s.Fit failing ts' :=
  { hfit with
    cache := fun t ht => hfit.cache t (h.mem_iff.mpr ht)
    batch := fun t ht => hfit.batch t (h.mem_iff.mpr ht)
    ids_nodup := (h.map _).nodup_iff.mp hfit.ids_nodup
    id_lt := fun t ht => hfit.id_lt t (h.mem_iff.mpr ht) }

/-- The scene of a thread's session between all others is that of the sanitizer. -/
theorem scene_eq (s : Sanitizer) (t : Thread) (others : List Thread) (hand : Multiset Entry) :
    s.scene (t :: others) hand =
      Heap.Session.scene ⟨s.heap, t.cache⟩
        (s.holders others (hand + (t.batch.entries : Multiset Entry))) := by
  unfold scene Heap.Session.scene holders
  congr 1
  · funext k
    cases k with
    | large => exact (add_zero 0).symm
    | small c =>
        show (s.heap.free c : Multiset Nat) + cached (t :: others) (.small c) =
          (s.heap.free c : Multiset Nat) + (t.cache.held c : Multiset Nat)
            + cached others (.small c)
        rw [cached_cons, add_assoc]
  · show hand + (_ + batched (t :: others)) = hand + _ + (_ + batched others)
    rw [batched_cons, add_assoc, add_left_comm (s.quarantine.queue : Multiset Entry)]

end Sanitizer

end GuardedHeap
