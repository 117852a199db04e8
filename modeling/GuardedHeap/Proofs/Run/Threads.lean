import GuardedHeap.Proofs.Run.Waiting

/-! # Threads — which ones are registered

    Calls of threads change the state of a thread, never which threads
    there are (`Sanitizer.fixes_ids`).  A thread that unregisters is gone,
    whether it could hand everything back or not
    (`Sanitizer.leaves_unregister_ids`). -/

namespace GuardedHeap

open Act

namespace Sanitizer

variable {ε α : Type} {s : Sanitizer} {id : Nat}

/-- The ids of the registered threads. -/
def ids (s : Sanitizer) : List Nat :=
  s.threads.map (·.id)

theorem mem_ids : id ∈ s.ids ↔ ∃ t, s.thread? id = some t := by
  unfold ids thread?
  rw [List.mem_map, ← Option.isSome_iff_exists, List.find?_isSome]
  simp

/-! ## Calls of threads -/

namespace Client

/-- The threads beside the one at work. -/
def threads (c : Client) : List Thread :=
  c.shared.threads

theorem blindToQuarantine_threads : BlindToQuarantine threads :=
  { blind_shared (f := fun s => s.threads) fun _ _ _ _ _ _ _ => rfl with held := fun _ _ => rfl }

end Client

theorem fixes_asThread_ids {act : Act ε Client α} (h : Fixes Client.threads act) :
    Fixes ids (asThread id act) := by
  intro s
  unfold after asThread
  cases hu : s.thread? id with
  | none => rfl
  | some u =>
      have hfixes := h ⟨u, s⟩
      have hback : ∀ c : Client, c.threads = s.threads →
          (replaceThread c.thread c.shared.threads).map (·.id) = s.ids := by
        intro c hc
        rw [ids_replaceThread]
        exact congrArg (List.map (·.id)) hc
      unfold after at hfixes
      dsimp only
      cases hact : act ⟨u, s⟩ with
      | ok a c => rw [hact] at hfixes; exact hback c hfixes
      | error e c => rw [hact] at hfixes; exact hback c hfixes

/-- Where no thread changes the ids do not. -/
theorem fixes_ids_of_view {act : Act ε Sanitizer α} (h : Fixes view act) : Fixes ids act :=
  h.comp (g := fun v => v.2.map (·.id))

theorem fixes_threads_of_view {act : Act ε Client α} (h : Fixes Client.view act) :
    Fixes Client.threads act :=
  h.comp (g := fun v => v.2.1)

/-- Only registering and unregistering change which threads there are. -/
theorem fixes_ids {op : Operation} (hregister : op ≠ .register) (hunregister : ∀ id, op ≠ .unregister id) :
    Fixes ids op.perform := by
  have hblind := Client.blindToQuarantine_threads
  cases op with
  | register => exact absurd rfl hregister
  | unregister id => exact absurd rfl (hunregister id)
  | allocate => exact fixes_asThread_ids (hblind.fixes_allocate _ _ _ _).mapError
  | calloc => exact fixes_asThread_ids (hblind.fixes_calloc _ _).mapError
  | reallocate => exact fixes_asThread_ids (hblind.fixes_reallocate _ _)
  | free => exact (fixes_asThread_ids (hblind.fixes_free _ _ _)).map
  | allocateFrame => exact fixes_asThread_ids (fixes_threads_of_view (fixes_allocateFrame _ _ _)).mapError
  | freeFrame => exact (fixes_asThread_ids (fixes_threads_of_view (fixes_freeFrame _ _ _ _)).mapError).map
  | noReturn => exact (fixes_asThread_ids (fixes_threads_of_view fixes_noReturn)).map
  | poison => exact (fixes_ids_of_view (blind_view.fixes_userMark _)).mapError.map
  | unpoison => exact (fixes_ids_of_view (blind_view.fixes_userMark _)).mapError.map
  | classify => exact (fixes_ids_of_view (blind_view.fixes_classify _ _ _ _)).map
  | setExitCode => exact (fixes_ids_of_view (blind_view.fixes_setExitCode _)).map
  | reportStats => exact (fixes_ids_of_view blind_view.fixes_reportStats).map

/-! ## The end of a thread -/

/-- What a thread hands back when it ends leaves the other threads alone. -/
theorem Client.fixes_handBack_threads : Fixes Client.threads handBack :=
  Client.blindToQuarantine_threads.fixes_drainBatch.mapError.bind fun _ =>
    fixes_threads_of_view (fixes_handBack_rest _)

/-- A thread that ends is taken out of the list before it hands anything back. -/
theorem leaves_unregister {P : Sanitizer → Prop} (hnone : s.thread? id = none → P s)
    (hback : ∀ u, s.thread? id = some u →
      Leaves (fun c => P c.shared) handBack ⟨u, { s with threads := s.threads.filter (·.id != id) }⟩) :
    Leaves P (unregister id) s := by
  unfold Leaves after unregister
  cases hthread : s.thread? id with
  | none => exact hnone hthread
  | some u =>
      have hleaves := hback u hthread
      unfold Leaves after at hleaves
      dsimp only
      generalize hc : (⟨u, { s with threads := s.threads.filter (·.id != id) }⟩ : Client) = c at hleaves
      cases hdone : handBack c with
      | ok a c' => rw [hdone] at hleaves; exact hleaves
      | error e c' => rw [hdone] at hleaves; exact hleaves

/-- A thread that unregisters is gone. -/
theorem leaves_unregister_ids : Leaves (fun t => t.ids = s.ids.filter (· != id)) (unregister id) s := by
  refine leaves_unregister (fun hnone => ?_) fun u _ => ?_
  · -- Nobody is taken out where there is no such thread.
    refine (List.filter_eq_self.mpr fun i hi => bne_iff_ne.mpr fun heq => ?_).symm
    obtain ⟨u, hu⟩ := mem_ids.mp (heq ▸ hi)
    exact nomatch hnone.symm.trans hu
  · generalize hc : (⟨u, { s with threads := s.threads.filter (·.id != id) }⟩ : Client) = c
    have hthreads : c.threads = s.threads.filter (·.id != id) := hc ▸ rfl
    refine Leaves.imp (Client.fixes_handBack_threads.leaves_eq hthreads) fun c' hc' => ?_
    unfold ids
    rw [show c'.shared.threads = _ from hc', List.filter_map]
    rfl

end Sanitizer

end GuardedHeap
