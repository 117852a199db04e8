import GuardedHeap.Proofs.Run.States

/-! # Failures — what a call leaves behind when it fails

    Two things are lost only where a call gave up while it gave evicted
    blocks back to the heap (`Sanitizer.GivesUp`): a chunk that was to be
    moved, which is freed though the caller is told that it is not
    (`Run.reallocate_refused`), and freed chunks behind the one that the
    heap failed at (`Run.quarantined_held`).  Both really happen. -/

namespace GuardedHeap

namespace Event

/-- The event is a call that was refused. -/
def refused : Event → Bool
  | call _ (.error _) => true
  | _ => false

/-- The event is no free, move or end of a thread that was refused by the heap. -/
def settled : Event → Bool
  | call (.free ..) (.error (.alloc _)) => false
  | call (.reallocate ..) (.error (.alloc _)) => false
  | call (.unregister ..) (.error (.alloc _)) => false
  | _ => true

end Event

namespace Sanitizer

variable {failing marked : Prop} {s t : Sanitizer}

/-- The heap with all its chunks, the quarantine and the threads are as they were, except that
    pages may have been committed. -/
structure Untouched (s t : Sanitizer) : Prop where
  heap : t.heap = { s.heap with pages := t.heap.pages }
  contents : t.heap.contents = s.heap.contents
  writable : ∀ a, a < Word.limit → s.heap.pages.Writable a → t.heap.pages.Writable a
  quarantine : t.quarantine = s.quarantine
  threads : t.threads = s.threads

/-- Putting a thread back that has not changed changes nothing. -/
theorem replaceThread_self {ts : List Thread} {u : Thread} (hnodup : (ts.map (·.id)).Nodup)
    (hu : u ∈ ts) : replaceThread u ts = ts := by
  unfold replaceThread
  refine (List.map_congr_left fun v hv => ?_).trans (List.map_id ts)
  by_cases hid : v.id = u.id
  · rw [if_pos hid]
    exact (List.inj_on_of_nodup_map hnodup hv hu hid).symm
  · exact if_neg hid

/-- A call that was not refused by the heap has not given up. -/
theorem not_abandoned {e : Event} (h : e.settled = true) : ¬ s.Abandoned e t := by
  rintro ⟨op, answer, rfl, hgave⟩
  cases hgave with
  | free | reallocate | unregister => exact nomatch h

/-- What a client leaves untouched is untouched when its thread is back. -/
theorem untouched_settled {id : Nat} {u : Thread} {c : Client} (hfit : s.Fit failing s.threads)
    (hu : s.thread? id = some u) (h : Client.Rests failing marked ⟨u, s⟩ 0 c) :
    s.Untouched c.settled where
  heap := h.untouched.heap.same
  contents := (h.untouched.heap.becomes hfit.heap).contents
  writable := h.untouched.heap.writable
  quarantine := h.untouched.quarantine
  threads := by
    show replaceThread c.thread c.shared.threads = s.threads
    rw [h.untouched.thread, h.reaches.shared.threads]
    exact replaceThread_self hfit.ids_nodup (Client.of_thread? hu).1

/-- A `reallocate` that fails touches nothing, or it has given up. -/
theorem refuses_reallocate (hfit : s.Fit failing s.threads)
    (hsound : Scene.Sound failing marked (s.scene s.threads 0)) (id p size : Nat) :
    Act.EndsOrStops (Operation.reallocate id p size).perform s (fun _ _ => True)
      fun e t => s.Untouched t ∨ failing ∧ s.GivesUp (.reallocate id p size) (.error e) t := by
  refine endsOrStops_asThread fun u hu => ?_
  obtain ⟨hclient, hscene⟩ := client_sound hfit hsound hu
  have hmem := (Client.of_thread? hu).1
  refine ((Client.ends_reallocate hclient hscene p size).imp (fun _ _ _ => trivial) ?_).orStops
  rintro _ c (⟨hrests, -⟩ | ⟨-, hfailing, ⟨a, rfl⟩, b, hb, huser, hstate, ev, hev, hevicted, before,
    origin, after, hafter, -, hreach⟩)
  · exact .inl (untouched_settled hfit hu hrests)
  · refine .inr ⟨hfailing, .reallocate hu hb huser hstate hev hevicted ?_⟩
    rw [← huser]
    exact hsound.retired_gone (hreach.comes hfit hmem).moves hafter

end Sanitizer

namespace Run

variable {failing marked : Prop} {past : List Occurrence} {s t : Sanitizer}

/-! ## Moving -/

/-- A `reallocate` that fails leaves every chunk with its record, its shadow and its bytes, the
    quarantine and the threads as they were, unless it gave up: then a call of the operating system
    failed while it gave back what had left the quarantine for the chunk, which is freed. -/
theorem reallocate_refused (h : Run failing marked past s) {id p size : Nat} {e : SanitizerError}
    (hstep : s.Step (.call (.reallocate id p size) (.error e)) t) :
    s.Untouched t ∨ failing ∧ s.GivesUp (.reallocate id p size) (.error e) t := by
  cases hstep with
  | call hact =>
      have hends : Act.EndsOrStops (Act.attempt (Operation.reallocate id p size).perform :
          Act Empty Sanitizer Answer) s (fun answer t => ∀ e, answer = .error e →
            s.Untouched t ∨ failing ∧ s.GivesUp (.reallocate id p size) (.error e) t)
          fun _ _ => True := by
        refine Act.endsOrStops_attempt.mpr
          ((Sanitizer.refuses_reallocate h.fit h.sound id p size).imp (fun _ _ _ => nofun) ?_)
        rintro e t hrefused _ ⟨⟩
        exact hrefused
      exact hends.of_ok hact e rfl

/-- What is found at an address that a call gave up on is no user's any more. -/
theorem not_gaveUp (h : Run failing marked past t) {id p size : Nat} {e : SanitizerError}
    (hchunk : (t.heap.chunk? p).map (fun k => (k.record.state, k.record.userBegin)) =
      some (.allocated, p)) :
    ¬ s.GivesUp (.reallocate id p size) (.error e) t := by
  obtain ⟨k, hk, heq⟩ := Option.map_eq_some_iff.mp hchunk
  obtain ⟨hstate, huser⟩ := Prod.mk.inj heq
  obtain ⟨b, hb, rfl⟩ := Redzone.of_chunk? h.fit.heap hk
  have hstate : b.record.state = .allocated := hstate
  intro hgave
  cases hgave with
  | reallocate _ _ _ _ _ _ hgone => exact hgone b ⟨hb, by rw [hstate]; decide⟩ huser hstate

/-- A chunk stays as it was when there is no memory for the one that it should move to. -/
theorem reallocate_refused_untouched :
    ∃ past s t e, Run True False past s ∧ s.Step (.call (.reallocate 0 17660905521280 8000000) (.error e)) t
      ∧ (t.heap.chunk? 17660905521280).map (fun k => (k.record.state, k.record.userBegin)) =
        some (.allocated, 17660905521280)
      ∧ s.Untouched t := by
  obtain ⟨past, s, t, answer, hrun, hstep, hcheck⟩ := last_call True False
    (show Request.plays {} .counter {}
      [.call .register, .call (.allocate 0 10 8 .malloc 0), .schedule [⟨.mprotect, 12, 0⟩]]
      (fun _ s => ((Request.call (.reallocate 0 17660905521280 8000000)).occurrence s).any
        fun o => o.event.refused
          && (o.after.heap.chunk? 17660905521280).map
            (fun k => (k.record.state, k.record.userBegin)) == some (.allocated, 17660905521280)) =
          true by
      decide +kernel)
    (by simp [Request.Fits, Operation.Marks])
  obtain ⟨hrefused, hafter⟩ := Bool.and_eq_true _ _ ▸ hcheck
  have hchunk := beq_iff_eq.mp hafter
  cases answer with
  | ok a => exact nomatch hrefused
  | error e =>
      have hnext := hrun.snoc hstep False.elim False.elim
      refine ⟨past, s, t, e, hrun, hstep, hchunk, ?_⟩
      rcases reallocate_refused hrun hstep with huntouched | ⟨-, hgave⟩
      · exact huntouched
      · exact absurd hgave (not_gaveUp hnext hchunk)

/-- A chunk of a million bytes is freed by a `reallocate` that fails: making room for it in the
    quarantine evicts a large block, which cannot be unmapped. -/
theorem reallocate_refused_freed :
    ∃ past s t e, Run True False past s ∧ s.Step (.call (.reallocate 0 18545668784256 10) (.error e)) t
      ∧ (s.heap.chunk? 18545668784256).map (·.record.state) = some .allocated
      ∧ (t.heap.chunk? 18545668784256).map (·.record.state) = some .quarantined := by
  obtain ⟨past, s, t, answer, hrun, hstep, hcheck⟩ := last_call True False
    (show Request.plays { quarantineSize := 8388608, threadQuarantineSize := 0 } .counter {}
      [.call .register, .call (.allocate 0 8000000 8 .malloc 0), .call (.allocate 0 1000000 8 .malloc 0),
        .call (.free 0 18691700564096 .malloc 0), .schedule [⟨.madvise, 12, 0⟩]]
      (fun _ s => ((Request.call (.reallocate 0 18545668784256 10)).occurrence s).any
        fun o => o.event.refused
          && (s.heap.chunk? 18545668784256).map (·.record.state) == some .allocated
          && (o.after.heap.chunk? 18545668784256).map (·.record.state) == some .quarantined) = true by
      decide +kernel)
    (by simp [Request.Fits, Operation.Marks])
  simp only [Bool.and_eq_true, beq_iff_eq] at hcheck
  obtain ⟨⟨hrefused, hbefore⟩, hafter⟩ := hcheck
  cases answer with
  | ok a => exact nomatch hrefused
  | error e => exact ⟨past, s, t, e, hrun, hstep, hbefore, hafter⟩

/-! ## The quarantine -/

/-- Every freed chunk waits in the queue or in the batch of a thread, and in one place only, unless
    some call before gave up while it gave back what had left the quarantine. -/
theorem quarantined_held (h : Run failing marked past s)
    (hkept : ∀ o ∈ past, ¬ o.before.Abandoned o.event o.after) {b : Block} (hb : b ∈ s.heap.blocks)
    (hstate : b.record.state = .quarantined) : s.waiting.count b.entry = 1 := by
  have hheld : ∀ b ∈ (s.scene s.threads 0).chunks, b.record.state = .quarantined →
      b.entry ∈ (s.scene s.threads 0).waiting := by
    clear hb hstate
    induction h with
    | @start _ _ _ _ _ _ s hinit hcalm =>
        obtain ⟨hfit, hfresh⟩ := begins hinit hcalm
        have hblocks : (s.scene s.threads 0).blocks = ∅ := hfresh.heap.blocks
        intro b hb
        rw [Scene.chunks, hblocks] at hb
        exact hb.1.elim
    | @snoc past s t e h hstep hfails hmarks ih =>
        obtain ⟨ds, hcomes, -, hkeeps, -⟩ := hstep.comes h.fit h.sound hfails hmarks
        have hlast := hkept ⟨s, e, t⟩ (List.mem_append_right _ (List.mem_singleton.mpr rfl))
        refine h.sound.held_moves hcomes.moves (hkeeps.resolve_right fun h => hlast h.2) ?_
        exact ih fun o ho => hkept o (List.mem_append_left _ ho)
  have hin := hheld b ⟨hb, by rw [hstate]; decide⟩ hstate
  have hnodup := h.sound.waiting_nodup
  rw [Sanitizer.waiting_scene] at hin hnodup
  exact List.count_eq_one_of_mem (Multiset.coe_nodup.mp hnodup) (Multiset.mem_coe.mp hin)

/-- A freed chunk is found by its address. -/
theorem of_quarantined (h : Run failing marked past s) {p : Nat}
    (hchunk : (s.heap.chunk? p).map (·.record.state) = some .quarantined) :
    ∃ b ∈ s.heap.blocks, b.record.state = .quarantined ∧ s.heap.chunk? p = some b.chunk := by
  obtain ⟨k, hk, hstate⟩ := Option.map_eq_some_iff.mp hchunk
  obtain ⟨b, hb, rfl⟩ := Redzone.of_chunk? h.fit.heap hk
  exact ⟨b, hb, hstate, hk⟩

/-- A freed chunk waits on after an allocation for which there was no memory. -/
theorem quarantined_held_refused :
    ∃ past s, Run True False past s ∧ (∃ o ∈ past, o.event.refused = true)
      ∧ ∃ b ∈ s.heap.blocks, b.record.state = .quarantined ∧ s.waiting.count b.entry = 1 := by
  obtain ⟨past, s, hrun, hcheck⟩ := of_plays True False
    (show Request.plays {} .counter {}
      [.call .register, .call (.allocate 0 10 8 .malloc 0), .call (.free 0 17660905521280 .malloc 0),
        .schedule [⟨.mprotect, 12, 0⟩], .call (.allocate 0 8000000 8 .malloc 0)]
      (fun past s => past.all (·.event.settled) && past.any (·.event.refused)
        && (s.heap.chunk? 17660905521280).map (·.record.state) == some .quarantined) = true by
      decide +kernel)
    (by simp [Request.Fits, Operation.Marks])
  simp only [Bool.and_eq_true, beq_iff_eq, List.all_eq_true, List.any_eq_true] at hcheck
  obtain ⟨⟨hsettled, hrefused⟩, hchunk⟩ := hcheck
  obtain ⟨b, hb, hstate, -⟩ := of_quarantined hrun hchunk
  refine ⟨past, s, hrun, hrefused, b, hb, hstate, ?_⟩
  exact quarantined_held hrun (fun o ho => Sanitizer.not_abandoned (hsettled o ho)) hb hstate

/-- Two blocks leave the quarantine at once, and the first of them cannot be unmapped.  The second
    is then held by nobody, though it is not recycled. -/
theorem quarantined_dropped :
    ∃ past s, Run True False past s
      ∧ ∃ b ∈ s.heap.blocks, b.record.state = .quarantined ∧ s.waiting.count b.entry = 0 := by
  obtain ⟨past, s, hrun, hcheck⟩ := of_plays True False
    (show Request.plays { quarantineSize := 9500000, threadQuarantineSize := 0 } .counter {}
      [.call .register, .call (.allocate 0 8000000 8 .malloc 0), .call (.allocate 0 1000000 8 .malloc 0),
        .call (.allocate 0 9400000 8 .malloc 0), .call (.free 0 18691700564096 .malloc 0),
        .call (.free 0 18545668784256 .malloc 0), .schedule [⟨.madvise, 12, 0⟩],
        .call (.free 0 18691708571776 .malloc 0)]
      (fun _ s => (s.heap.chunk? 18545668784256).map (·.record.state) == some .quarantined
        && ((s.heap.chunk? 18545668784256).map (·.block)).all
          fun block => s.waiting.all (·.block != block)) = true by
      decide +kernel)
    (by simp [Request.Fits, Operation.Marks])
  obtain ⟨hquarantined, hout⟩ := Bool.and_eq_true _ _ ▸ hcheck
  obtain ⟨b, hb, hstate, hfound⟩ := of_quarantined hrun (beq_iff_eq.mp hquarantined)
  rw [hfound] at hout
  refine ⟨past, s, hrun, b, hb, hstate, List.count_eq_zero.mpr fun hin => ?_⟩
  have hne := List.all_eq_true.mp hout b.entry hin
  exact absurd rfl (bne_iff_ne.mp hne)

end Run

end GuardedHeap
