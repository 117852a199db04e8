import GuardedHeap.Proofs.Run.Failures

/-! # Frees — what a free changes, and what a wrong one does not

    A wrong free is found out before anything is done: it counts itself,
    logs an event, and leaves the sanitizer alone, whether it is a free or
    a move.  A free that is carried out changes the record and the marks of
    its own block; then entries that leave the quarantine are recycled, and
    recycling changes no mark.  Both hold in every state of a run, whatever
    users mark by hand and whatever the operating system fails
    (`Run.release_exact`). -/

namespace GuardedHeap

open Quarantine (Entry)

namespace Operation

/-- The call frees a chunk, or is to move one. -/
def Releases : Operation → Prop
  | free .. | reallocate .. => True
  | _ => False

end Operation

/-- What a call was refused with. -/
def Occurrence.refusal? (o : Occurrence) : Option SanitizerError :=
  match o.event with
  | .call _ (.error e) => some e
  | _ => none

namespace Sanitizer

variable {failing marked : Prop} {s t : Sanitizer} {id p : Nat} {u : Thread} {c : Client}

/-- A wrong free was counted and logged, and nothing else was done but taking traces. -/
structure Accuses (s : Sanitizer) (w : FreeError) (t : Sanitizer) : Prop where
  counter : ∃ k, (Client.wrongFreeEvent w).1 = some k ∧ t.metrics = s.metrics.inc k
  same : t = { s with metrics := t.metrics, log := t.log, captures := t.captures }

/-- The chunk at `p` was freed by a thread, and what left the quarantine for it was recycled. -/
structure Buries (s : Sanitizer) (id p : Nat) (origin : Origin) (b : Block) (ev : Quarantine.Eviction)
    (t : Sanitizer) : Prop where
  mem : b ∈ s.heap.blocks
  user : b.record.userBegin = p
  state : b.record.state = .allocated
  put : ∃ u, s.thread? id = some u ∧ s.quarantine.put u.batch b.entry = .ok ev
  freed : ∀ e ∈ ev.evicted, ∃ d ∈ exchange s.heap.blocks b
    (b.withRecord { b.record with state := .quarantined, freed := origin }),
    d.entry = e ∧ d.record.state = .quarantined
  blocks : t.heap.blocks = Redzone.recycled ev.evicted (exchange s.heap.blocks b
    (b.withRecord { b.record with state := .quarantined, freed := origin }))
  marked : ∀ a ∈ b.extent, t.heap.shadow.code a = Shadow.Magic.heapFreed.byte
  unmarked : ∀ a, a < Word.limit → a ∉ b.extent → t.heap.shadow.code a = s.heap.shadow.code a

/-- What a client has done nothing else to is the same when its thread is back. -/
theorem accuses_settled {w : FreeError} (hfit : s.Fit failing s.threads) (hu : s.thread? id = some u)
    (h : Client.Accuses w ⟨u, s⟩ c) : s.Accuses w c.settled := by
  obtain ⟨thread, shared⟩ := c
  obtain ⟨rfl, hshared⟩ := Client.mk.inj h.same
  have hthreads : replaceThread thread shared.threads = s.threads := by
    rw [hshared]
    exact replaceThread_self hfit.ids_nodup (Client.of_thread? hu).1
  refine ⟨h.counter, ?_⟩
  show { shared with threads := replaceThread thread shared.threads } = _
  rw [hthreads]
  conv_lhs => rw [hshared]
  rfl

/-- A chunk that a client freed is freed when its thread is back. -/
theorem buries_settled {api : Api} {origin : Origin} (hfit : s.Fit failing s.threads)
    (hu : s.thread? id = some u) (h : Client.Frees failing marked ⟨u, s⟩ 0 p api origin c) :
    ∃ b ev, s.Buries id p origin b ev c.settled := by
  obtain ⟨-, b, hb, huser, hstate, -, ev, hev, -, hburies, -⟩ := h
  obtain ⟨hbegin, hsize⟩ := hfit.heap.granule_dvd hb.1
  have hshadow : c.settled.heap.shadow =
      s.heap.shadow.poisoned b.begin b.size Shadow.Magic.heapFreed.byte := hburies.shadow
  refine ⟨b, ev, hb.1, huser, hstate, ⟨u, hu, hev⟩, hburies.freed, hburies.blocks, fun a ha => ?_,
    fun a ha hout => ?_⟩
  · rw [hshadow]
    exact Shadow.code_poisoned hbegin hsize (hfit.heap.lt_limit (hfit.heap.extent_subset hb.1 ha)) ha
  · rw [hshadow]
    refine Shadow.code_poisoned_of_outside hbegin ha fun hin => hout ?_
    rwa [Word.roundUp_of_dvd (by decide) (Nat.dvd_add hbegin hsize)] at hin

/-- A call that frees or moves a chunk frees exactly this one, or is refused as wrong and does
    nothing. -/
theorem releases (hfit : s.Fit failing s.threads)
    (hsound : Scene.Sound failing marked (s.scene s.threads 0)) {op : Operation} (hop : op.Releases) :
    Act.EndsOrStops op.perform s
      (fun _ t => ∀ p, op.frees? = some p → ¬ op.Allocates →
        ∃ b ev, s.Buries op.caller p (s.freedBy op p) b ev t)
      fun e t => ∀ w, e = .free w → s.Accuses w t := by
  cases op with
  | free id p api stack =>
      unfold Operation.perform
      rw [Act.endsOrStops_map]
      refine endsOrStops_asThread fun u hu => ?_
      obtain ⟨hclient, hscene⟩ := client_sound hfit hsound hu
      refine ((Client.ends_free hclient hscene p api stack).imp ?_ ?_).orStops
      · rintro _ c ⟨-, ⟨rfl, -⟩ | hfrees⟩ q hq -
        · exact nomatch hq
        · obtain rfl := Option.some.inj ((if_neg hfrees.ne_zero).symm.trans hq)
          rw [tid_of_thread? hu] at hfrees
          exact buries_settled hfit hu hfrees
      · rintro _ c (⟨-, ⟨w, rfl, -, haccuses⟩, -⟩ | ⟨-, -, -, ⟨a, rfl⟩, -⟩)
        · rintro _ ⟨⟩
          exact accuses_settled hfit hu haccuses
        · exact nofun
  | reallocate id p size =>
      refine endsOrStops_asThread fun u hu => ?_
      obtain ⟨hclient, hscene⟩ := client_sound hfit hsound hu
      refine ((Client.ends_reallocate hclient hscene p size).imp ?_ ?_).orStops
      · rintro _ c ⟨-, ⟨rfl, -⟩ | ⟨hp, rfl, -, hfrees⟩ | ⟨hsize, -⟩⟩ q hq hallocates
        · exact nomatch hq
        · obtain rfl := Option.some.inj ((if_neg hp).symm.trans hq)
          rw [tid_of_thread? hu] at hfrees
          exact buries_settled hfit hu hfrees
        · exact absurd (.inr hsize) hallocates
      · rintro _ c (⟨-, -, haccuses⟩ | ⟨-, -, ⟨a, rfl⟩, -⟩)
        · exact fun w hw => accuses_settled hfit hu (haccuses w hw)
        · exact nofun
  | _ => exact hop.elim

end Sanitizer

namespace Run

variable {failing marked : Prop} {past : List Occurrence} {s t : Sanitizer}

/-- A free or move that is refused as wrong changes one counter, the log and the number of traces, and
    nothing else.  A free that is carried out changes the record of its own block, which is quarantined
    with the stack and the thread of the call; it marks the bytes of this block as freed, and no other;
    and of all blocks only those whose entries left the quarantine are recycled. -/
theorem release_exact (h : Run failing marked past s) {op : Operation} {answer : Answer}
    (hop : op.Releases) (hstep : s.Step (.call op answer) t) :
    (∀ w, answer = .error (.free w) → s.Accuses w t)
      ∧ ∀ a p, answer = .ok a → op.frees? = some p → ¬ op.Allocates →
        ∃ b ev, s.Buries op.caller p (s.freedBy op p) b ev t := by
  cases hstep with
  | call hact =>
      have hends : Act.EndsOrStops (Act.attempt op.perform : Act Empty Sanitizer Answer) s
          (fun answer t => (∀ w, answer = .error (.free w) → s.Accuses w t)
            ∧ ∀ a p, answer = .ok a → op.frees? = some p → ¬ op.Allocates →
              ∃ b ev, s.Buries op.caller p (s.freedBy op p) b ev t) fun _ _ => True := by
        refine Act.endsOrStops_attempt.mpr ((Sanitizer.releases h.fit h.sound hop).imp
          (fun _ _ hburies => ⟨nofun, fun _ p _ => hburies p⟩) fun _ _ haccuses => ⟨?_, nofun⟩)
        rintro w ⟨⟩
        exact haccuses w rfl
      exact hends.of_ok hact

/-- A chunk is freed though it was not allocated by the family of calls that frees it, as the options
    do not stop this, and it leaves the quarantine at once, which has no room.  A move of what is no
    chunk only counts. -/
theorem release_exact_tolerated :
    (∃ past s t b ev, Run True True past s
        ∧ s.Step (.call (.free 0 17660905521280 .newArray 7) (.ok 0)) t
        ∧ s.Buries 0 17660905521280 ⟨7, 0⟩ b ev t
        ∧ (t.heap.chunk? 17660905521280).map (·.record.state) = some .recycled)
      ∧ ∃ past s t, Run True True past s
        ∧ s.Step (.call (.reallocate 0 8 1) (.error (.free (.invalidFree 8 0)))) t
        ∧ s.Accuses (.invalidFree 8 0) t := by
  constructor
  · obtain ⟨past, s, t, answer, hrun, hstep, hcheck⟩ := last_call True True
      (show Request.plays { quarantineSize := 0, threadQuarantineSize := 0, haltOnFreeError := false }
        .counter {}
        [.call .register, .call (.allocate 0 10 8 .malloc 0), .call (.poison 17660905521280 8)]
        (fun _ s => ((Request.call (.free 0 17660905521280 .newArray 7)).occurrence s).any
          fun o => o.returned? == some 0
            && (o.after.heap.chunk? 17660905521280).map (·.record.state) == some .recycled) = true by
        decide +kernel)
      (by simp [Request.Fits, Operation.Marks])
    obtain ⟨hreturned, hafter⟩ := Bool.and_eq_true _ _ ▸ hcheck
    cases answer with
    | error e => cases hreturned
    | ok a =>
        obtain rfl : a = 0 := Option.some.inj (beq_iff_eq.mp hreturned)
        have hop : (Operation.free 0 17660905521280 .newArray 7).Releases := trivial
        obtain ⟨b, ev, hburies⟩ := (release_exact hrun hop hstep).2 0 17660905521280 rfl rfl id
        exact ⟨past, s, t, b, ev, hrun, hstep, hburies, beq_iff_eq.mp hafter⟩
  · obtain ⟨past, s, t, answer, hrun, hstep, hcheck⟩ := last_call True True
      (show Request.plays {} .counter {} [.call .register, .call (.allocate 0 10 8 .malloc 0)]
        (fun _ s => ((Request.call (.reallocate 0 8 1)).occurrence s).any
          fun o => o.refusal? == some (SanitizerError.free (.invalidFree 8 0))) = true by
        decide +kernel)
      (by simp [Request.Fits, Operation.Marks])
    cases answer with
    | ok a => cases hcheck
    | error e =>
        obtain rfl : e = .free (.invalidFree 8 0) := Option.some.inj (beq_iff_eq.mp hcheck)
        have hop : (Operation.reallocate 0 8 1).Releases := trivial
        exact ⟨past, s, t, hrun, hstep, (release_exact hrun hop hstep).1 _ rfl⟩

end Run

end GuardedHeap
