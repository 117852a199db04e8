import GuardedHeap.Proofs.Run.Failures
import GuardedHeap.Proofs.Sanitizer.Blind

/-! # Waiting — the order in which freed blocks join the queue

    A freed chunk goes to the batch of its thread, and a batch joins the
    queue as a whole.  What an event frees and what it makes join is read
    off the event and the state before it (`Occurrence.freed`,
    `Occurrence.joined`); the step lemma is `Sanitizer.Step.queues`: the
    batch of the thread that is called, with what is freed behind it, is
    what joins the queue and the batch afterwards. -/

namespace GuardedHeap

open Quarantine (Entry)

namespace Operation

/-- The call neither frees nor drains. -/
def Quiet : Operation → Prop
  | free .. | reallocate .. | unregister _ => False
  | _ => True

end Operation

namespace Sanitizer

/-- The batch of a thread; a thread that is not registered has none. -/
def batchOf (s : Sanitizer) (id : Nat) : List Entry :=
  ((s.thread? id).map (·.batch.entries)).getD []

/-- The chunk that a call frees, if it returns. -/
def freed (s : Sanitizer) (op : Operation) : List Entry :=
  ((op.frees?.bind s.heap.userChunk?).map fun k =>
    { block := k.block, user := k.record.userBegin, size := k.record.actualSize }).toList

/-- What a call makes join the queue, if it returns. -/
def joined (s : Sanitizer) : Operation → List Entry
  | .unregister id => s.batchOf id
  | op => (s.freed op).flatMap (s.quarantine.joining (s.batchOf op.caller))

/-- A thread frees some chunks, and some of what waits joins the queue. -/
structure Queues (s : Sanitizer) (id : Nat) (freed joined : List Entry) (t : Sanitizer) : Prop where
  joins : s.quarantine.Joins joined t.quarantine
  own : s.batchOf id ++ freed = joined ++ t.batchOf id
  others : ∀ i, i ≠ id → t.batchOf i = s.batchOf i

end Sanitizer

namespace Event

/-- The thread that is called, if one is. -/
def caller : Event → Nat
  | call op _ => op.caller
  | _ => 0

end Event

namespace Occurrence

/-- The chunk that was freed. -/
def freed (o : Occurrence) : List Entry :=
  match o.event with
  | .call op (.ok _) => o.before.freed op
  | _ => []

/-- The freed chunks that joined the queue. -/
def joined (o : Occurrence) : List Entry :=
  match o.event with
  | .call op (.ok _) => o.before.joined op
  | _ => []

end Occurrence

namespace Sanitizer

variable {failing marked : Prop} {s t : Sanitizer} {id : Nat}

/-! ## Batches -/

/-- What the batches of the others are does not depend on the thread that is put back. -/
theorem find?_replaceThread {v : Thread} {ts : List Thread} (i : Nat) :
    (replaceThread v ts).find? (·.id == i) =
      (ts.find? (·.id == i)).map fun u => if u.id = v.id then v else u := by
  induction ts with
  | nil => rfl
  | cons u rest ih =>
      unfold replaceThread at ih ⊢
      rw [List.map_cons]
      by_cases hv : u.id = v.id
      · rw [if_pos hv]
        by_cases hi : u.id = i
        · rw [List.find?_cons_of_pos (by simpa using hv ▸ hi), List.find?_cons_of_pos (by simpa using hi),
            Option.map_some, if_pos hv]
        · rw [List.find?_cons_of_neg (by simpa using hv ▸ hi), List.find?_cons_of_neg (by simpa using hi), ih]
      · rw [if_neg hv]
        by_cases hi : u.id = i
        · rw [List.find?_cons_of_pos (by simpa using hi), List.find?_cons_of_pos (by simpa using hi),
            Option.map_some, if_neg hv]
        · rw [List.find?_cons_of_neg (by simpa using hi), List.find?_cons_of_neg (by simpa using hi), ih]

/-- The batches when a client is back. -/
theorem batchOf_settled {u : Thread} {c : Client} (hu : s.thread? id = some u)
    (hid : c.thread.id = u.id) (hthreads : c.shared.threads = s.threads) (i : Nat) :
    c.settled.batchOf i = if i = id then c.thread.batch.entries else s.batchOf i := by
  have hfind : c.settled.thread? i = (s.thread? i).map fun v => if v.id = c.thread.id then c.thread else v := by
    show (replaceThread c.thread c.shared.threads).find? _ = _
    rw [hthreads]
    exact find?_replaceThread i
  have huid : u.id = id := (Client.of_thread? hu).2
  unfold batchOf
  rw [hfind]
  by_cases hi : i = id
  · rw [hi, hu, if_pos rfl, Option.map_some, if_pos hid.symm]
    rfl
  · rw [if_neg hi]
    cases hv : s.thread? i with
    | none => rfl
    | some v =>
        have hvid : v.id ≠ c.thread.id := by
          rw [(Client.of_thread? hv).2, hid, huid]
          exact hi
        rw [Option.map_some, if_neg hvid]

/-- What waits in a batch waits. -/
theorem mem_waiting_of_batchOf {e : Entry} (h : e ∈ s.batchOf id) : e ∈ s.waiting := by
  unfold batchOf at h
  cases hu : s.thread? id with
  | none =>
      rw [hu] at h
      exact nomatch h
  | some u =>
      rw [hu] at h
      refine List.mem_append_right _ (List.mem_flatMap.mpr ⟨u, (Client.of_thread? hu).1, ?_⟩)
      exact h

/-- Nothing is queued if queue and batches are as before. -/
theorem Queues.of_same (hqueue : t.quarantine = s.quarantine) (hbatch : ∀ i, t.batchOf i = s.batchOf i) :
    s.Queues id [] [] t :=
  ⟨hqueue ▸ .refl _, by rw [hbatch, List.append_nil, List.nil_append], fun i _ => hbatch i⟩

/-! ## Calls that queue nothing -/

/-- The quarantine and the batches, as a client sees them. -/
def Client.view (c : Client) : Quarantine × List Thread × Nat × Quarantine.Batch :=
  (c.shared.quarantine, c.shared.threads, c.thread.id, c.thread.batch)

/-- The quarantine and the threads. -/
def view (s : Sanitizer) : Quarantine × List Thread :=
  (s.quarantine, s.threads)

section Quiet

open Act

variable {ε α : Type}

/-- What a thread and the queue hold is blind to the rest. -/
theorem blind_view : Blind view :=
  fun _ _ _ _ _ _ _ => rfl

theorem Client.blind_view : Client.Blind Client.view :=
  ⟨fun _ _ _ _ _ _ _ _ => rfl, fun _ _ => rfl⟩

theorem fixes_onShared {act : Act ε Sanitizer α} (h : Fixes view act) :
    Fixes Client.view (Client.onShared act) := by
  refine h.onPart fun c s hs => ?_
  obtain ⟨hqueue, hthreads⟩ := Prod.mk.inj hs
  unfold Client.view
  rw [hqueue, hthreads]

theorem fixes_count (c : Counter) : Fixes view (count c : Act ε Sanitizer Unit) :=
  fixes_modify fun _ => rfl

theorem fixes_countBy (c : Counter) (n : Nat) : Fixes view (countBy c n : Act ε Sanitizer Unit) :=
  fixes_modify fun _ => rfl

theorem fixes_onFakeStack (owner : Nat) (stack : FakeStack)
    (act : Act FakeStackError FakeStack.View α) : Fixes view (Client.onFakeStack owner stack act) :=
  fixes_onPart fun _ _ => rfl

theorem fixes_allocateFrame (classId size realStack : Nat) :
    Fixes Client.view (Client.allocateFrame classId size realStack) := by
  refine fixes_ofExcept.bind fun _ => fixes_get.bind fun c => fixes_onShared ?_
  refine fixes_get.bind fun s => ?_
  cases s.fakeStackOf? c.thread.id with
  | none => exact (fixes_count _).bind fun _ => fixes_pure
  | some stack =>
      refine (fixes_onFakeStack _ _ _).attempt.bind fun result => fixes_get.bind fun _ =>
        fixes_liftM.bind fun _ => (fixes_countBy _ _).bind fun _ => ?_
      cases result with
      | ok frame => exact (fixes_count _).bind fun _ => fixes_pure
      | error e =>
          cases e with
          | exhausted => exact (fixes_count _).bind fun _ => (blind_view.fixes_emit _ _ _).bind fun _ => fixes_pure
          | _ => exact fixes_refuse

theorem fixes_freeFrame (p classId size realStack : Nat) :
    Fixes Client.view (Client.freeFrame p classId size realStack) := by
  refine fixes_ite fixes_pure (fixes_ofExcept.bind fun _ => fixes_get.bind fun c => fixes_onShared ?_)
  exact fixes_get.bind fun _ => fixes_orRefuse.bind fun _ => (fixes_onFakeStack _ _ _).bind fun _ =>
    fixes_count _

/-- Leaving frames behind holds nothing. -/
theorem fixes_noReturn : Fixes Client.view (Client.noReturn : Act ε Client Unit) := by
  refine fixes_get.bind fun c => fixes_onShared (fixes_modify fun s => ?_)
  cases s.fakeStackOf? c.thread.id <;> rfl

theorem fixes_createFakeStack (owner : Nat) : Fixes view (createFakeStack owner) :=
  fixes_get.bind fun _ => (blind_view.fixes_onHeap _).mapError.bind fun _ =>
    Fixes.bind (fixes_modify fun _ => rfl) fun _ => fixes_pure

/-- A fake stack that is released was held by no one. -/
theorem fixes_releaseFakeStack (owner : Nat) : Fixes view (releaseFakeStack owner) := by
  unfold releaseFakeStack
  refine fixes_get_bind fun s => ?_
  cases s.fakeStackOf? owner with
  | none => rfl
  | some stack => exact (blind_view.fixes_onHeap _).mapError _

/-- What hangs behind the drained batch of a thread that ends queues nothing. -/
theorem fixes_handBack_rest (ev : List Entry) : Fixes Client.view (do
    Act.mapError .alloc (Client.recycle ev)
    Act.mapError .alloc (Client.onSession Heap.Session.drain)
    let t := (← get).thread
    Client.onShared (releaseFakeStack t.id)
    Client.onShared (emit .info "thread_unregister" (·.withTid t.tid)) : Act SanitizerError Client Unit) :=
  (Client.blind_view.fixes_recycle ev).mapError.bind fun _ =>
    (Client.blind_view.fixes_onSession _).mapError.bind fun _ =>
    fixes_get.bind fun _ => (fixes_onShared (fixes_releaseFakeStack _)).bind fun _ =>
      fixes_onShared (blind_view.fixes_emit _ _ _)

/-- The quarantine and the batches. -/
def held (s : Sanitizer) : Quarantine × (Nat → List Entry) :=
  (s.quarantine, s.batchOf)

/-- Where no thread changes no batch does. -/
theorem fixes_held {act : Act ε Sanitizer α} (h : Fixes view act) : Fixes held act :=
  h.comp (g := fun v => (v.1, fun i => ((v.2.find? (·.id == i)).map (·.batch.entries)).getD []))

/-- A call of a thread that leaves its batch and the quarantine as they are. -/
theorem fixes_asThread {act : Act ε Client α} (h : Fixes Client.view act) :
    Fixes held (asThread id act) := by
  intro s
  cases hu : s.thread? id with
  | none =>
      unfold Act.after asThread
      rw [hu]
  | some u =>
      have hc : ∀ c, Client.view c = Client.view ⟨u, s⟩ → held c.settled = held s := by
        intro c hview
        obtain ⟨hqueue, hview⟩ := Prod.mk.inj hview
        obtain ⟨hthreads, hview⟩ := Prod.mk.inj hview
        obtain ⟨hid, hbatch⟩ := Prod.mk.inj hview
        refine Prod.ext hqueue (funext fun i => ?_)
        show c.settled.batchOf i = s.batchOf i
        rw [batchOf_settled hu hid hthreads]
        by_cases hi : i = id
        · rw [if_pos hi, hbatch, hi]
          unfold batchOf
          rw [hu]
          rfl
        · rw [if_neg hi]
      have hfixes := h ⟨u, s⟩
      unfold Act.after asThread at *
      rw [hu]
      dsimp only
      cases hact : act ⟨u, s⟩ with
      | ok a c => rw [hact] at hfixes; exact hc c hfixes
      | error e c => rw [hact] at hfixes; exact hc c hfixes

/-- A thread that is added has nothing in its batch. -/
theorem held_join {s : Sanitizer} {u : Thread} (hbatch : u.batch.entries = []) :
    held { s with threads := s.threads ++ [u] } = held s := by
  refine Prod.ext rfl (funext fun i => ?_)
  show (((s.threads ++ [u]).find? (·.id == i)).map (·.batch.entries)).getD [] = s.batchOf i
  rw [List.find?_append]
  unfold batchOf thread?
  cases s.threads.find? (·.id == i) with
  | some v => rfl
  | none =>
      by_cases hu : u.id = i
      · rw [List.find?_cons_of_pos (by simpa using hu)]
        exact hbatch
      · rw [List.find?_cons_of_neg (by simpa using hu)]
        rfl

/-- A registration holds nothing. -/
theorem fixes_register : Fixes held register := by
  intro s
  have henlist : ∀ stack, Fixes held (enlist s.newcomer stack) := fun stack =>
    (fixes_held (blind_view.fixes_emit _ _ _)).bind fun _ =>
      Fixes.bind (fixes_modify fun _ => held_join rfl) fun _ => fixes_pure
  exact leaves_register_of (P := fun t => held t = held s) rfl
    ((fixes_held (fixes_createFakeStack _)).leaves _) fun stack _ hr => (henlist stack).leaves_eq hr

end Quiet

/-- A call that neither frees nor drains queues nothing. -/
theorem fixes_perform {op : Operation} (hquiet : op.Quiet) : Act.Fixes held op.perform := by
  cases op with
  | free | reallocate | unregister => exact hquiet.elim
  | register => exact fixes_register
  | allocate => exact fixes_asThread (Client.blind_view.fixes_allocate _ _ _ _).mapError
  | calloc => exact fixes_asThread (Client.blind_view.fixes_calloc _ _).mapError
  | allocateFrame => exact fixes_asThread (fixes_allocateFrame _ _ _).mapError
  | freeFrame => exact (fixes_asThread (fixes_freeFrame _ _ _ _).mapError).map
  | noReturn => exact (fixes_asThread fixes_noReturn).map
  | poison => exact (fixes_held (blind_view.fixes_userMark _)).mapError.map
  | unpoison => exact (fixes_held (blind_view.fixes_userMark _)).mapError.map
  | classify => exact (fixes_held (blind_view.fixes_classify _ _ _ _)).map
  | setExitCode => exact (fixes_held (blind_view.fixes_setExitCode _)).map
  | reportStats => exact (fixes_held blind_view.fixes_reportStats).map

/-! ## Calls that free -/

/-- The chunk that is freed is that of a user. -/
theorem freed_eq (op : Operation) {p : Nat} {b : Block} (hfit : s.Fit failing s.threads)
    (hsound : Scene.Sound failing marked (s.scene s.threads 0)) (hop : op.frees? = some p)
    (hb : b ∈ s.heap.chunks) (huser : b.record.userBegin = p) (hstate : b.record.state = .allocated) :
    s.freed op = [b.entry] := by
  have hfits := hsound.fits b hb.1 hb.2
  have hchunk : s.heap.userChunk? p = some b.chunk := by
    unfold Heap.userChunk?
    rw [← huser, Redzone.chunk?_eq hfit.heap hb.1 hfits.userBegin_mem]
    refine Option.filter_some_pos ?_
    show (b.record.userBegin == b.record.userBegin && b.record.state == .allocated) = true
    rw [hstate]
    simp
  unfold freed
  rw [hop, Option.bind_some, hchunk, Option.map_some]
  show [(⟨b.begin, b.record.userBegin, b.record.actualSize⟩ : Entry)] = [b.entry]
  rw [hfits.actual]
  rfl

/-- What a free makes join the queue. -/
theorem joined_eq {op : Operation} {e : Entry} (h : s.freed op = [e]) :
    s.joined op = s.quarantine.joining (s.batchOf op.caller) e := by
  have hflat : (s.freed op).flatMap (s.quarantine.joining (s.batchOf op.caller)) =
      s.quarantine.joining (s.batchOf op.caller) e := by
    rw [h, List.flatMap_singleton]
  cases op with
  | unregister => exact nomatch h
  | _ => exact hflat

/-- A client that has put an entry into the quarantine queued it. -/
theorem queues_of_takes {u : Thread} {c : Client} {e : Entry} {ev : Quarantine.Eviction}
    (hfit : s.Fit failing s.threads) (hpos : 0 < s.quarantine.maxBytes) (hu : s.thread? id = some u)
    (hreach : c.thread.id = u.id ∧ c.shared.threads = s.threads)
    (hev : s.quarantine.put u.batch e = .ok ev) (htakes : Client.Takes ev c) :
    s.Queues id [e] (s.quarantine.joining (s.batchOf id) e) c.settled := by
  have hbatch : s.batchOf id = u.batch.entries := by
    unfold batchOf
    rw [hu]
    rfl
  obtain ⟨hjoins, hown⟩ := Quarantine.put_joins hfit.queue
    (hfit.batch u (Client.of_thread? hu).1) hpos hev
  have hsettled := batchOf_settled hu hreach.1 hreach.2
  rw [hbatch]
  refine ⟨?_, ?_, fun i hi => by rw [hsettled, if_neg hi]⟩
  · show s.quarantine.Joins _ c.shared.quarantine
    rw [htakes.queue]
    exact hjoins
  · rw [hsettled, if_pos rfl, hbatch, htakes.batch]
    exact hown

/-- A client that has left the quarantine and its batch alone queued nothing. -/
theorem queues_of_same {u : Thread} {c : Client} (hu : s.thread? id = some u)
    (hreach : c.thread.id = u.id ∧ c.shared.threads = s.threads)
    (hsame : Client.SameQuarantine ⟨u, s⟩ c) : s.Queues id [] [] c.settled := by
  refine .of_same hsame.queue fun i => ?_
  rw [batchOf_settled hu hreach.1 hreach.2]
  by_cases hi : i = id
  · rw [if_pos hi, hsame.batch, hi]
    unfold batchOf
    rw [hu]
    rfl
  · rw [if_neg hi]

/-- A free adds its chunk to what waits, and nothing else. -/
theorem queues_free (hfit : s.Fit failing s.threads)
    (hsound : Scene.Sound failing marked (s.scene s.threads 0)) (hcalm : ¬ failing)
    (hpos : 0 < s.quarantine.maxBytes) (id p : Nat) (api : Api) (stack : StackId) :
    Act.EndsOrStops (Operation.free id p api stack).perform s
      (fun _ t => s.Queues id (s.freed (.free id p api stack)) (s.joined (.free id p api stack)) t)
      fun _ t => s.Queues id [] [] t := by
  unfold Operation.perform
  rw [Act.endsOrStops_map]
  refine endsOrStops_asThread fun u hu => ?_
  obtain ⟨hclient, hscene⟩ := client_sound hfit hsound hu
  refine ((Client.ends_free hclient hscene p api stack).imp ?_ ?_).orStops
  · rintro _ c ⟨-, ⟨rfl, hreach, hsame⟩ | ⟨hp, b, hb, huser, hstate, -, ev, hev, htakes, -, hreach⟩⟩
    · exact queues_of_same hu ⟨hreach.id, hreach.shared.threads⟩ hsame
    · have hfreed := freed_eq (.free id p api stack) hfit hsound (if_neg hp) hb huser hstate
      rw [joined_eq hfreed, hfreed]
      exact queues_of_takes hfit hpos hu ⟨hreach.id, hreach.shared.threads⟩ hev htakes
  · rintro e c (⟨-, -, hrests⟩ | ⟨-, -, hfailing, -⟩)
    · exact queues_of_same hu ⟨hrests.reaches.id, hrests.reaches.shared.threads⟩
        ⟨hrests.untouched.quarantine, congrArg Thread.batch hrests.untouched.thread⟩
    · exact absurd hfailing hcalm

/-- A reallocation adds the old chunk to what waits if it moves. -/
theorem queues_reallocate (hfit : s.Fit failing s.threads)
    (hsound : Scene.Sound failing marked (s.scene s.threads 0)) (hcalm : ¬ failing)
    (hpos : 0 < s.quarantine.maxBytes) (id p size : Nat) :
    Act.EndsOrStops (Operation.reallocate id p size).perform s
      (fun _ t => s.Queues id (s.freed (.reallocate id p size)) (s.joined (.reallocate id p size)) t)
      fun _ t => s.Queues id [] [] t := by
  refine endsOrStops_asThread fun u hu => ?_
  obtain ⟨hclient, hscene⟩ := client_sound hfit hsound hu
  have htakes : ∀ {b : Block} {c : Client} {ev : Quarantine.Eviction} {ds : List Deed}, p ≠ 0 →
      b ∈ s.heap.chunks → b.record.userBegin = p → b.record.state = .allocated →
      s.quarantine.put u.batch b.entry = .ok ev → Client.Takes ev c →
      Client.Reaches failing marked ⟨u, s⟩ 0 ds c 0 →
      s.Queues id (s.freed (.reallocate id p size)) (s.joined (.reallocate id p size)) c.settled := by
    intro b c ev ds hp hb huser hstate hev htakes hreach
    have hfreed := freed_eq (.reallocate id p size) hfit hsound (if_neg hp) hb huser hstate
    rw [joined_eq hfreed, hfreed]
    exact queues_of_takes hfit hpos hu ⟨hreach.id, hreach.shared.threads⟩ hev htakes
  refine ((Client.ends_reallocate hclient hscene p size).imp ?_ ?_).orStops
  · rintro user c ⟨-, ⟨rfl, ⟨b, content, -, -, hreach⟩, hsame⟩ |
      ⟨hp, -, -, -, b, hb, huser, hstate, -, ev, hev, htook, -, hreach⟩ |
      ⟨-, hp, b, hb, huser, hstate, -, b', content, copied, -, -, -, ev, hev, htook, hreach⟩⟩
    · exact queues_of_same hu ⟨hreach.id, hreach.shared.threads⟩ hsame
    · exact htakes hp hb huser hstate hev htook hreach
    · exact htakes hp hb huser hstate hev htook hreach
  · rintro e c (⟨hrests, -⟩ | ⟨-, hfailing, -⟩)
    · exact queues_of_same hu ⟨hrests.reaches.id, hrests.reaches.shared.threads⟩
        ⟨hrests.untouched.quarantine, congrArg Thread.batch hrests.untouched.thread⟩
    · exact absurd hfailing hcalm

/-! ## The end of a thread -/

/-- The batches when a thread is gone. -/
theorem batchOf_filter {r : Sanitizer} (hthreads : r.threads = s.threads.filter (·.id != id)) (i : Nat) :
    r.batchOf i = if i = id then [] else s.batchOf i := by
  unfold batchOf thread?
  rw [hthreads, List.find?_filter]
  by_cases hi : i = id
  · rw [if_pos hi, hi, List.find?_eq_none.mpr]
    · rfl
    · intro u _
      simp
  · rw [if_neg hi]
    congr 3
    funext u
    by_cases hu : u.id = i
    · simp [hu, hi]
    · simp [hu]

/-- A drained batch is what the quarantine makes of it. -/
theorem drainBatch_eq_ok {c c' : Client} {evicted : List Entry}
    (h : Client.drainBatch c = .ok evicted c') :
    ∃ ev, c.shared.quarantine.drain c.thread.batch = .ok ev ∧ c' = Client.setQuarantine ev c := by
  obtain ⟨_, _, hget, h⟩ := Act.bind_eq_ok.mp h
  cases hget
  obtain ⟨ev, _, hcheck, h⟩ := Act.bind_eq_ok.mp h
  cases hev : c.shared.quarantine.drain c.thread.batch with
  | error o =>
      rw [hev] at hcheck
      exact nomatch hcheck
  | ok ev' =>
      rw [hev] at hcheck
      cases hcheck
      cases h
      exact ⟨ev, rfl, rfl⟩

/-- What a thread hands back begins with its batch. -/
theorem handBack_view {c c' : Client} {a : Unit} (h : handBack c = .ok a c') :
    ∃ ev, c.shared.quarantine.drain c.thread.batch = .ok ev
      ∧ c'.view = (Client.setQuarantine ev c).view := by
  unfold handBack at h
  obtain ⟨evicted, c₁, hdrain, hrest⟩ := Act.bind_eq_ok.mp h
  unfold Act.mapError at hdrain
  cases hbatch : Client.drainBatch c with
  | error e d =>
      rw [hbatch] at hdrain
      cases e <;> exact nomatch hdrain
  | ok es d =>
      rw [hbatch] at hdrain
      cases hdrain
      obtain ⟨ev, hev, rfl⟩ := drainBatch_eq_ok hbatch
      exact ⟨ev, hev, (fixes_handBack_rest _).of_ok hrest⟩

/-- A thread that unregisters has its whole batch join the queue. -/
theorem queues_unregister (hfit : s.Fit failing s.threads)
    (hsound : Scene.Sound failing marked (s.scene s.threads 0)) (hcalm : ¬ failing) (id : Nat) :
    Act.EndsOrStops (unregister id) s (fun _ t => s.Queues id [] (s.batchOf id) t)
      fun _ _ => False := by
  cases hu : s.thread? id with
  | none =>
      unfold Act.EndsOrStops unregister
      rw [hu]
      exact trivial
  | some u =>
      -- The call goes through, and what it does to the batches is read off its last state.
      have hends : Act.Ends (unregister id) s (fun _ _ => True) fun _ _ => False :=
        (ends_unregister hfit hsound hu).imp (fun _ _ _ => trivial) fun _ _ h => hcalm h.1
      unfold Act.Ends Act.EndsOrStops unregister at *
      rw [hu] at hends ⊢
      dsimp only at hends ⊢
      cases hact : handBack ⟨u, { s with threads := s.threads.filter (·.id != id) }⟩ with
      | error e c =>
          rw [hact] at hends
          cases e with
          | refused e => exact hends
          | stopped => exact trivial
      | ok a c =>
          obtain ⟨ev, hev, hview⟩ := handBack_view hact
          obtain ⟨hqueue, hview⟩ := Prod.mk.inj hview
          have hthreads : c.shared.threads = s.threads.filter (·.id != id) := (Prod.mk.inj hview).1
          have hbatch : s.batchOf id = u.batch.entries := by
            unfold batchOf
            rw [hu]
            rfl
          have hafter := batchOf_filter (r := c.shared) hthreads
          obtain ⟨hjoins, -⟩ := Quarantine.drain_joins hfit.queue
            (hfit.batch u (Client.of_thread? hu).1) hev
          show s.Queues id [] (s.batchOf id) c.shared
          refine ⟨?_, ?_, fun i hi => by rw [hafter, if_neg hi]⟩
          · rw [hbatch]
            show s.quarantine.Joins _ c.shared.quarantine
            rw [hqueue]
            exact hjoins
          · rw [hafter, if_pos rfl]

/-! ## Events -/

/-- Every event without failures queues what is read off it. -/
theorem Step.queues {e : Event} (hfit : s.Fit failing s.threads)
    (hsound : Scene.Sound failing marked (s.scene s.threads 0)) (hcalm : ¬ failing)
    (hpos : 0 < s.quarantine.maxBytes) (h : s.Step e t) :
    s.Queues e.caller (Occurrence.freed ⟨s, e, t⟩) (Occurrence.joined ⟨s, e, t⟩) t := by
  cases h with
  | @call op answer t hact =>
      have hspec : Act.EndsOrStops op.perform s
          (fun _ t => s.Queues op.caller (s.freed op) (s.joined op) t)
          fun _ t => s.Queues op.caller [] [] t := by
        by_cases hquiet : op.Quiet
        · have hsame : ∀ t, held t = held s → s.Queues op.caller [] [] t := fun t ht =>
            .of_same (Prod.mk.inj ht).1 fun i => congrFun (Prod.mk.inj ht).2 i
          have hfreed : s.freed op = [] ∧ s.joined op = [] := by
            cases op <;> first | exact hquiet.elim | exact ⟨rfl, rfl⟩
          rw [hfreed.1, hfreed.2]
          have hfixes := fixes_perform hquiet
          unfold Act.EndsOrStops
          cases hact : op.perform s with
          | ok a t => exact hsame t (hfixes.of_ok hact)
          | error e t =>
              cases e with
              | refused e => exact hsame t (hfixes.of_error hact)
              | stopped => exact trivial
        · cases op with
          | free id p api stack => exact queues_free hfit hsound hcalm hpos id p api stack
          | reallocate id p size => exact queues_reallocate hfit hsound hcalm hpos id p size
          | unregister id =>
              refine Act.endsOrStops_map.mpr ((queues_unregister hfit hsound hcalm id).imp
                (fun _ _ h => h) fun _ _ h => h.elim)
          | _ => exact absurd trivial hquiet
      have hends : Act.EndsOrStops (Act.attempt op.perform : Act Empty Sanitizer Answer) s
          (fun answer t => s.Queues op.caller (Occurrence.freed ⟨s, .call op answer, t⟩)
            (Occurrence.joined ⟨s, .call op answer, t⟩) t) fun _ _ => True :=
        Act.endsOrStops_attempt.mpr hspec
      exact hends.of_ok hact
  | write | tick | readLog | schedule => exact .of_same rfl fun _ => rfl

end Sanitizer

end GuardedHeap
