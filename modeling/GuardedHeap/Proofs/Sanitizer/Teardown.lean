import GuardedHeap.Proofs.Repeats
import GuardedHeap.Proofs.Sanitizer.Registration
import GuardedHeap.Proofs.Tight

/-! # Teardown — what is left when all is given back

    The counters tell how many chunks wait (`Balanced`), and every fake
    stack belongs to a thread (`Owned`), so a sanitizer without threads
    has none.  Shutting one down recycles all that waits, in the hand of a
    thread that never registered (`ends_finish`). -/

namespace GuardedHeap

open Act
open Quarantine (Entry)

namespace Sanitizer

variable {failing marked : Prop} {s : Sanitizer} {t : Thread} {ts : List Thread} {hand : Multiset Entry}

/-! ## Balance -/

/-- A chunk that was freed was recycled, or else it waits. -/
def Balanced (s : Sanitizer) (ts : List Thread) (hand : Multiset Entry) : Prop :=
  s.metrics.recycledChunks < Word.limit
    ∧ (s.metrics.recycledChunks + (s.scene ts hand).waiting.card) % Word.limit = s.metrics.frees

/-- A thread with an empty batch has nothing that waits. -/
theorem waiting_idle (hbatch : t.batch.entries = []) :
    (s.scene (t :: ts) hand).waiting = (s.scene ts hand).waiting := by
  show hand + (_ + batched (t :: ts)) = hand + (_ + batched ts)
  rw [batched_cons, hbatch, Multiset.coe_nil, zero_add]

/-- Counting keeps the balance where as many chunks wait more as were freed more. -/
theorem lasting_balanced : Lasting failing marked Balanced where
  still {s ts hand s' ts' hand'} hstill hbalanced := by
    have hfrees : s'.metrics.frees = s.metrics.frees := hstill.counters .frees (by decide)
    have hrecycled : s'.metrics.recycledChunks = s.metrics.recycledChunks :=
      hstill.counters .recycledChunks (by decide)
    unfold Balanced
    rwa [hstill.waiting, hfrees, hrecycled]
  join hbatch hbalanced := by
    unfold Balanced
    rwa [waiting_idle hbatch]
  leave hbatch _ hbalanced := by
    unfold Balanced at hbalanced ⊢
    rwa [waiting_idle hbatch] at hbalanced
  allocate _ _ hbalanced := hbalanced
  retire := by
    rintro s ts hand p api origin f heap - - ⟨hlt, hbalance⟩
    refine ⟨hlt, ?_⟩
    show (s.metrics.recycledChunks + (f.entry ::ₘ hand + _).card) % _ = Word.wrapAdd s.metrics.frees 1
    unfold Word.wrapAdd
    rw [← hbalance, Multiset.cons_add, Multiset.card_cons, Nat.mod_add_mod]
    rfl
  recycle := by
    rintro s t ts hand e u - - ⟨hlt, hbalance⟩
    refine ⟨Nat.mod_lt _ (by decide), ?_⟩
    show (Word.wrapAdd s.metrics.recycledChunks 1 + (hand + _).card) % _ = s.metrics.frees
    rw [← hbalance]
    show (_ % _ + _) % _ = (_ + (e ::ₘ hand + _).card) % _
    rw [Multiset.cons_add, Multiset.card_cons, Nat.mod_add_mod, Nat.add_assoc, Nat.add_comm 1]
    rfl
  back _ _ _ hbalanced := hbalanced
  unback _ _ _ hbalanced := hbalanced

/-! ## Owners -/

/-- Every fake stack is that of a thread. -/
def Owned (s : Sanitizer) (ts : List Thread) (_ : Multiset Entry) : Prop :=
  ∀ o ∈ s.fakeStacks, o.owner ∈ ts.map (·.id)

/-- Whoever owns a fake stack keeps it, unless it leaves. -/
theorem lasting_owned : Lasting failing marked Owned where
  still hstill howned o ho := by
    have hin := List.mem_map_of_mem (f := OwnedStack.owner) ho
    rw [hstill.owners] at hin
    obtain ⟨o', ho', heq⟩ := List.mem_map.mp hin
    rw [← heq, hstill.ids.mem_iff]
    exact howned o' ho'
  join _ howned o ho := List.mem_cons_of_mem _ (howned o ho)
  leave _ hstacks howned o ho := (List.mem_cons.mp (howned o ho)).resolve_left (hstacks o ho)
  allocate _ _ howned := howned
  retire _ _ howned := howned
  recycle _ _ howned := howned
  back _ hmem _ howned o ho := by
    rcases List.mem_append.mp ho with ho | ho
    · exact howned o ho
    · obtain rfl := List.mem_singleton.mp ho
      exact hmem
  unback _ _ _ howned o ho := howned o (List.mem_of_mem_filter ho)

/-! ## Shutting down -/

section Renumbered

variable {s' : Sanitizer} {n : Nat} {ε α : Type}

/-- The sanitizers differ in how many registrations there were. -/
def Renumbered (n : Nat) (s s' : Sanitizer) : Prop :=
  s' = { s with registrations := n }

variable (s n) in
theorem alike_countBy (counter : Counter) (amount : Nat) :
    Alike (Renumbered n) (countBy counter amount : Act ε Sanitizer Unit) (countBy counter amount) s
      { s with registrations := n } :=
  ⟨rfl, rfl⟩

theorem alike_emit (h : Renumbered n s s') (level : EventLog.Level) (event : String)
    (more : EventLog.Entry → EventLog.Entry) :
    Alike (Renumbered n) (emit level event more : Act ε Sanitizer Unit) (emit level event more) s s' := by
  obtain rfl := h
  refine alike_get (Alike.bind (r := Renumbered n) (alike_orStop rfl) (fun now u u' heq => ?_)
    fun _ _ heq => heq)
  obtain rfl := heq
  exact alike_modify rfl

theorem alike_emitStats (h : Renumbered n s s') :
    Alike (Renumbered n) (emitStats : Act ε Sanitizer Stats) emitStats s s' := by
  obtain rfl := h
  refine alike_get ((alike_emit rfl _ _ _).bind (fun _ _ _ heq => ?_) fun _ _ heq => heq)
  exact alike_pure heq

namespace Client

variable {c c' : Client}

/-- The clients differ in how many registrations there were. -/
def Renumbered (n : Nat) (c c' : Client) : Prop :=
  c' = { c with shared := { c.shared with registrations := n } }

theorem alike_onSession {act : Act ε Heap.Session α} (h : Renumbered n c c') :
    Alike (Renumbered n) (onSession act) (onSession act) c c' := by
  obtain rfl := h
  exact Alike.onPart (p := Eq) (alike_self fun _ => rfl) fun _ _ heq => heq ▸ rfl

theorem alike_onShared {act : Act ε Sanitizer α} (h : Renumbered n c c')
    (hact : Alike (Sanitizer.Renumbered n) act act c.shared { c.shared with registrations := n }) :
    Alike (Renumbered n) (onShared act) (onShared act) c c' := by
  obtain rfl := h
  exact Alike.onPart hact fun _ _ heq => heq ▸ rfl

/-- What is recycled does not depend on the number of registrations. -/
theorem alike_recycle (es : List Entry) (h : Renumbered n c c') :
    Alike (Renumbered n : Client → Client → Prop) (recycle es) (recycle es) c c' := by
  induction es generalizing c c' with
  | nil => exact alike_pure h
  | cons e rest ih =>
      refine (alike_onSession h).bind (fun _ _ _ h => ?_) fun _ _ h => h
      refine (alike_onShared h (alike_countBy _ _ .recycledChunks 1)).bind (fun _ _ _ h => ?_)
        fun _ _ h => h
      exact (alike_onShared h (alike_countBy _ _ .recycledBytes e.size)).bind (fun _ _ _ h => ih h)
        fun _ _ h => h

/-- What shutting down does with the chunks that waited. -/
def finish (purged : List Entry) : Act SanitizerError Client Stats := do
  Act.mapError .alloc (recycle purged)
  Act.mapError .alloc (onSession Heap.Session.drain)
  let stats ← onShared emitStats
  onShared (emit .info "runtime_shutdown" id)
  return stats

/-- Nor does the end of a thread. -/
theorem alike_finish (es : List Entry) (h : Renumbered n c c') :
    Alike (Renumbered n : Client → Client → Prop) (finish es) (finish es) c c' := by
  refine (Alike.mapError (alike_recycle es h)).bind (fun _ _ _ h => ?_) fun _ _ h => h
  refine (Alike.mapError (alike_onSession h)).bind (fun _ _ _ h => ?_) fun _ _ h => h
  refine (alike_onShared h (alike_emitStats rfl)).bind (fun _ _ _ h => ?_) fun _ _ h => h
  exact (alike_onShared h (alike_emit rfl _ _ _)).bind (fun _ _ _ h => alike_pure h) fun _ _ h => h

end Client

end Renumbered

namespace Client

variable {c c' : Client}

/-- Shutting down recycles all that waited, and what came into the cache is free again. -/
theorem ends_finish (es : List Entry) (hfit : c.Fit False)
    (hsound : Scene.Sound False marked (c.scene es)) :
    Act.Ends (finish es) c
      (fun stats c' => Reaches False marked c es (es.map .evict) c' 0
        ∧ (∀ n, c'.thread.cache.held n = []) ∧ Keeps 0 c c' ∧ SameQuarantine c c'
        ∧ stats.gauges = c'.shared.gauges
        ∧ ∀ k ∈ Counter.ofChunks, stats.counters.value k = c'.shared.metrics.value k)
      fun _ _ => False := by
  have hall : (es : Multiset Entry) = es + 0 := (add_zero _).symm
  unfold finish
  rw [Act.ends_bind, Act.ends_mapError]
  rw [hall] at hsound ⊢
  refine (ends_recycle es hfit hsound).imp ?_ fun _ _ hno => hno.1
  rintro _ c₁ ⟨hrecycled, hkeeps, hsame, -⟩
  rw [Act.ends_bind, Act.ends_mapError]
  refine (ends_drain hrecycled.fit (hrecycled.sound hsound) fun _ _ => False).imp ?_
    fun _ _ hno => hno
  rintro _ c₂ ⟨hdrained, hcache, hkeeps', hsame'⟩
  have hreach := hrecycled.quietly hdrained
  rw [Act.ends_bind, ends_onShared]
  unfold emitStats
  rw [Act.ends_bind, Act.ends_get, Act.ends_bind]
  refine (ends_emit hreach.fit.clock _ _ _).imp ?_ fun _ _ hno => hno
  intro _ s₃ hlike
  rw [Act.ends_pure, Act.ends_bind, ends_onShared]
  have hclock : s₃.clock.isSome = true := hlike.clock ▸ hreach.fit.clock
  refine (ends_emit hclock _ _ _).imp ?_ fun _ _ hno => hno
  -- Both log lines are written by then, and neither changes a gauge.
  intro _ s₄ hlike'
  have hboth := hlike.trans hlike'
  refine Act.ends_pure.mpr ⟨hreach.quietly (reaches_shared (hboth.reaches hreach.fit)), hcache,
    (hkeeps.trans hkeeps').trans (Keeps.of_like hboth), ⟨?_, ?_⟩, ?_, fun k hk => (hboth.counters k hk).symm⟩
  · exact hboth.quarantine.trans (hsame'.queue.trans hsame.queue)
  · exact hsame'.batch.trans hsame.batch
  · show c₂.shared.gauges = s₄.gauges
    unfold gauges
    rw [hboth.heap, hboth.quarantine]

end Client

/-- A shutdown does what the end of a thread with the whole queue does. -/
theorem shutdown_of_finish {stats : Stats} {c : Client}
    (h : Client.finish s.quarantine.queue
      ⟨{ id := s.registrations, cache := Cache.new s.heap.classes.count },
        { s with quarantine := s.quarantine.purge.2 }⟩ = .ok stats c) :
    shutdown s = .ok stats c.shared := by
  unfold Client.finish Quarantine.purge at h
  unfold shutdown Quarantine.purge
  dsimp only at h ⊢
  rw [h]

/-- A thread that never registers, at work on what waited.  Its number is used up for the time being, as that of a
    newcomer would be. -/
def helper (s : Sanitizer) : Client where
  thread := { id := s.registrations, cache := Cache.new s.heap.classes.count }
  shared := { s with quarantine := s.quarantine.purge.2, registrations := s.registrations + 1 }

section Helper

/-- The helper is a newcomer. -/
theorem helper_newcomer (s : Sanitizer) : Newcomer s s.helper.thread :=
  ⟨rfl, rfl, rfl⟩

theorem helper_crew (hthreads : s.threads = []) : s.helper.crew = [s.helper.thread] := by
  unfold Client.crew Client.others
  show _ :: s.threads.filter _ = _
  rw [hthreads]
  rfl

/-- The helper fits where no thread is left. -/
theorem helper_fit (hfit : s.Fit False s.threads) (hthreads : s.threads = []) : s.helper.Fit False := by
  have hjoined := s.helper_newcomer.fit hfit
  rw [hthreads] at hjoined
  unfold Client.Fit
  rw [helper_crew hthreads]
  exact { hjoined with queue := rfl }

/-- What waits in the queue waits in the hand of the helper. -/
theorem waiting_helper (s : Sanitizer) :
    (s.quarantine.queue : Multiset Entry) + ((s.helper.shared.quarantine.queue : Multiset Entry) + batched []) =
      0 + ((s.quarantine.queue : Multiset Entry) + batched []) := by
  rw [show s.helper.shared.quarantine.queue = [] from rfl, Multiset.coe_nil, zero_add, zero_add]

/-- What waited is in the hand of the helper. -/
theorem helper_scene (hthreads : s.threads = []) :
    s.helper.scene s.quarantine.queue = s.scene s.threads 0 := by
  unfold Client.scene
  rw [helper_crew hthreads, s.helper_newcomer.scene, hthreads]
  unfold Sanitizer.scene
  rw [← s.waiting_helper]
  rfl

/-- The scene of the helper is sound. -/
theorem helper_sound (hsound : Scene.Sound False marked (s.scene s.threads 0)) (hthreads : s.threads = []) :
    Scene.Sound False marked (s.helper.scene s.quarantine.queue) := by
  rw [helper_scene hthreads]
  exact hsound

/-- Joining the helper moves nothing. -/
theorem helper_still (hthreads : s.threads = []) :
    Still marked s [s.helper.thread] 0 s.helper.shared s.helper.crew s.quarantine.queue := by
  rw [helper_crew hthreads]
  refine ⟨rfl, rfl, rfl, fun _ _ _ _ _ => rfl, ?_, .refl _, rfl, fun _ _ => rfl⟩
  rw [waiting_idle rfl, waiting_idle rfl]
  unfold Sanitizer.scene
  rw [← s.waiting_helper]

/-- What the helper reaches, the sanitizer comes to without it. -/
theorem comes_of_helper {c : Client} {ds : List Deed} (hfit : s.Fit False s.threads)
    (hsound : Scene.Sound False marked (s.scene s.threads 0)) (hthreads : s.threads = [])
    (hreach : Client.Reaches False marked s.helper s.quarantine.queue ds c 0)
    (hcache : ∀ n, c.thread.cache.held n = []) (hbatch : c.thread.batch.entries = [])
    (hstacks : ∀ o ∈ c.shared.fakeStacks, o.owner ≠ c.thread.id) : Comes False marked s ds c.shared := by
  have hthreads' : c.shared.threads = [] := hreach.shared.threads.trans hthreads
  have hcrew : c.crew = [c.thread] := by
    unfold Client.crew Client.others
    rw [hthreads']
    rfl
  have hall : c.shared.Fit False [c.thread] := hcrew ▸ hreach.fit
  have hmoves : Moves False marked (s.helper.scene s.quarantine.queue) ds (c.scene 0) := hreach.shared.moves
  rw [helper_scene hthreads, Client.scene, hcrew] at hmoves
  refine ⟨?_, hreach.shared.config, ?_, fun hsteady K hK hstart => ?_, hreach.shared.counts, hreach.shared.guards⟩ <;>
    rw [hthreads']
  · exact hall.leave
  · exact hmoves.of_eq (scene_idle_thread hcache hbatch)
  · rw [hthreads] at hstart
    have hjoined := hK.still (helper_still hthreads) (hK.join rfl hstart)
    have hdone := hreach.shared.lasts ⟨not_false, helper_fit hfit hthreads, helper_sound hsound hthreads⟩ K hK hjoined
    rw [hcrew] at hdone
    exact hK.leave hbatch hstacks hdone

end Helper

/-- A sanitizer without threads shuts down: all that waited is recycled and nothing else happens, but that it has not
    used a number up. -/
theorem ends_shutdown (hfit : s.Fit False s.threads)
    (hsound : Scene.Sound False marked (s.scene s.threads 0)) (hthreads : s.threads = []) :
    ∃ stats t u, shutdown s = .ok stats t ∧ u = { t with registrations := s.registrations + 1 }
      ∧ Comes False marked s (s.quarantine.queue.map .evict) u
      ∧ u.threads = [] ∧ u.fakeStacks = s.fakeStacks ∧ u.quarantine = s.quarantine.purge.2
      ∧ stats.gauges = u.gauges
      ∧ ∀ k ∈ Counter.ofChunks, stats.counters.value k = u.metrics.value k := by
  have hends := Client.ends_finish s.quarantine.queue (helper_fit hfit hthreads) (helper_sound hsound hthreads)
  rcases ends_iff.mp hends with ⟨stats, c, hact, hreach, hcache, hkeeps, hsame, hgauges, hcounters⟩ | ⟨_, _, _, hno⟩
  case inr => exact hno.elim
  have hbatch : c.thread.batch.entries = [] := congrArg Quarantine.Batch.entries hsame.batch
  have hunowned : ∀ o ∈ c.shared.fakeStacks, o.owner ≠ c.thread.id := by
    intro o ho heq
    have hlt := hfit.owner_lt o (hkeeps.fakeStacks ▸ ho)
    rw [heq, hreach.id] at hlt
    exact Nat.lt_irrefl _ hlt
  have hcomes := comes_of_helper hfit hsound hthreads hreach hcache hbatch hunowned
  -- Without the number that was used up nothing else would have happened.
  have halike : Alike (Client.Renumbered (s.registrations + 1)) (Client.finish s.quarantine.queue)
      (Client.finish s.quarantine.queue) ⟨s.helper.thread, { s with quarantine := s.quarantine.purge.2 }⟩ s.helper :=
    Client.alike_finish s.quarantine.queue rfl
  unfold Alike at halike
  rw [hact] at halike
  cases hact' : Client.finish s.quarantine.queue ⟨s.helper.thread, { s with quarantine := s.quarantine.purge.2 }⟩ with
  | error e c' =>
      rw [hact'] at halike
      exact halike.elim
  | ok stats' c' =>
      rw [hact'] at halike
      obtain ⟨rfl, hrenumbered⟩ := halike
      exact ⟨stats', c'.shared, c.shared, shutdown_of_finish hact', by rw [hrenumbered], hcomes,
        hreach.shared.threads.trans hthreads, hkeeps.fakeStacks, hsame.queue, hgauges, hcounters⟩

end Sanitizer

end GuardedHeap
