import GuardedHeap.Proofs.Run.Basic
import GuardedHeap.Proofs.Sanitizer.Allocation
import GuardedHeap.Proofs.Sanitizer.Registration

/-! # Calls — every answer tells the deeds

    Whatever is called, the sanitizer comes to a state that a chain of
    moves leads to.  If no call of the operating system can fail, the call
    and its answer tell which deeds these moves had (`Told`). -/

namespace GuardedHeap

open Quarantine (Entry)

namespace Sanitizer

variable {failing marked : Prop} {s s' : Sanitizer} {t : Thread} {ds : List Deed}

/-- The options about guarding. -/
abbrev options (s : Sanitizer) : RedzoneOptions :=
  s.config.redzoneOptions

/-- A block with its contents as an allocation returns it. -/
structure HandedOut (o : RedzoneOptions) (user size : Nat) (api : Api) (origin : Origin) (b : Block)
    (content : Nat → UInt8) : Prop where
  record : b.record = .recordAllocation
    { userBegin := user, requestedSize := size, actualSize := b.size, origin, api }
  fill : ∀ a, user ≤ a → a < user + min size o.maxMallocFillSize →
    content a = UInt8.ofNat o.mallocFillByte

/-- The deeds of a free of the chunk `b` by a thread. -/
structure Retires (s : Sanitizer) (t : Thread) (p : Nat) (api : Api) (origin : Origin) (b : Block)
    (ds : List Deed) : Prop where
  mem : b ∈ s.heap.chunks
  user : b.record.userBegin = p
  state : b.record.state = .allocated
  matches_api : ¬ Redzone.Mismatch s.options b.record api
  deeds : ∃ ev, s.quarantine.put t.batch b.entry = .ok ev
    ∧ ds = .retire (b.withRecord { b.record with state := .quarantined, freed := origin })
      :: ev.evicted.map .evict

end Sanitizer

namespace Operation

/-- The thread that a call is made for, if it is made for one. -/
def caller : Operation → Nat
  | unregister id | allocate id .. | calloc id .. | reallocate id .. | free id .. => id
  | allocateFrame id .. | freeFrame id .. | noReturn id => id
  | _ => 0

/-- The address that a call frees. -/
def frees? : Operation → Option Nat
  | free _ p .. | reallocate _ p _ => if p = 0 then none else some p
  | _ => none

/-- The call returns a chunk if it succeeds. -/
def Allocates : Operation → Prop
  | allocate .. | calloc .. => True
  | reallocate _ p size => p = 0 ∨ size ≠ 0
  | _ => False

/-- The call has to do with chunks. -/
def OnChunks : Operation → Prop
  | allocate .. | calloc .. | reallocate .. | free .. | unregister .. => True
  | _ => False

/-- The number by which records know the thread of a call. -/
def tid (op : Operation) : Nat :=
  op.caller % Thread.tidLimit

/-- The stack that a call says it comes from; zero says nothing. -/
def stack : Operation → StackId
  | allocate _ _ _ _ stack | free _ _ _ stack => stack
  | _ => 0

/-- The traces that a call takes before it frees the chunk at an address. -/
def tracesBefore : Operation → Nat → Nat
  | reallocate _ p size => Sanitizer.Client.tracesBefore p size
  | _ => fun _ => 0

end Operation

namespace Sanitizer

/-- What an answered call did, if no call of the operating system failed. -/
inductive Told (s : Sanitizer) : Operation → Answer → List Deed → Prop where
  | allocate {id size alignment user : Nat} {api : Api} {stack : StackId} {t : Thread} {b : Block}
      {content : Nat → UInt8} (ht : s.thread? id = some t)
      (hb : HandedOut s.options user size api (s.originOf 0 t.tid stack) b content) :
      Told s (.allocate id size alignment api stack) (.ok user) [.handOut b content]
  | calloc {id times size user : Nat} {t : Thread} {b : Block} {content : Nat → UInt8}
      (ht : s.thread? id = some t)
      (hrecord : b.record = .recordAllocation
        { userBegin := user, requestedSize := times * size, actualSize := b.size
          origin := s.originOf 0 t.tid 0, api := .malloc }) :
      Told s (.calloc id times size) (.ok user)
        [.handOut b content, .put user (times * size) fun _ => 0]
  | reallocateNone {id size user : Nat} {t : Thread} {b : Block} {content : Nat → UInt8}
      (ht : s.thread? id = some t)
      (hb : HandedOut s.options user size .malloc (s.originOf 0 t.tid 0) b content) :
      Told s (.reallocate id 0 size) (.ok user) [.handOut b content]
  | reallocateZero {id p : Nat} {t : Thread} {b : Block} {ds : List Deed}
      (ht : s.thread? id = some t) (hp : p ≠ 0)
      (hb : Retires s t p .malloc (s.originOf 0 t.tid 0) b ds) :
      Told s (.reallocate id p 0) (.ok 0) ds
  | reallocate {id p size user : Nat} {t : Thread} {b b' : Block} {content copied : Nat → UInt8}
      {ds : List Deed} (ht : s.thread? id = some t) (hp : p ≠ 0) (hsize : size ≠ 0)
      (hb : Retires s t p .malloc (s.originOf 1 t.tid 0) b ds)
      (hb' : HandedOut s.options user size .malloc (s.originOf 0 t.tid 0) b' content)
      (hcopied : ∀ i, i < min b.record.requestedSize size →
        copied (user + i) = s.heap.contents (p + i)) :
      Told s (.reallocate id p size) (.ok user)
        (.handOut b' content :: .put user (min b.record.requestedSize size) copied :: ds)
  | freeNone {id : Nat} {api : Api} {stack : StackId} : Told s (.free id 0 api stack) (.ok 0) []
  | free {id p : Nat} {api : Api} {stack : StackId} {t : Thread} {b : Block} {ds : List Deed}
      (ht : s.thread? id = some t) (hp : p ≠ 0)
      (hb : Retires s t p api (s.originOf 0 t.tid stack) b ds) :
      Told s (.free id p api stack) (.ok 0) ds
  | freeWrong {id p : Nat} {api : Api} {stack : StackId} {t : Thread} {w : FreeError}
      (ht : s.thread? id = some t) (hp : p ≠ 0)
      (hw : Redzone.Wrong s.options s.heap.chunks p api t.tid w) :
      Told s (.free id p api stack) (.error (.free w)) []
  | unregister {id : Nat} {t : Thread} {ev : Quarantine.Eviction} (ht : s.thread? id = some t)
      (hev : s.quarantine.drain t.batch = .ok ev) :
      Told s (.unregister id) (.ok 0) (ev.evicted.map .evict)
  | refused {op : Operation} {e : SanitizerError} (hop : ∀ id p api stack, op ≠ .free id p api stack) :
      Told s op (.error e) []
  | quiet {op : Operation} {a : Nat} (hop : ¬ op.OnChunks) : Told s op (.ok a) []

/-- What is recorded about a call where it allocates. -/
def allocatedBy (s : Sanitizer) (op : Operation) : Origin :=
  s.originOf 0 op.tid op.stack

/-- What is recorded about a call where it frees the chunk at `q`. -/
def freedBy (s : Sanitizer) (op : Operation) (q : Nat) : Origin :=
  s.originOf (op.tracesBefore q) op.tid op.stack

/-- The deeds of a call are recorded as its own, and it returned what it handed out and freed what
    it was to free, if it succeeded. -/
structure Signs (s : Sanitizer) (op : Operation) (answer : Answer) (ds : List Deed) : Prop where
  signed : Deed.Signed (s.allocatedBy op) (s.freedBy op) ds
  returns : ∀ b content, .handOut b content ∈ ds → ∀ a, answer = .ok a →
    op.Allocates ∧ a = b.record.userBegin
  frees : ∀ b, .retire b ∈ ds → ∀ a, answer = .ok a → op.frees? = some b.record.userBegin

/-- A call of the operating system failed while what had left the quarantine was given back to the
    heap, and the call gave up: some chunks were behind the one that it failed at, or the call had
    already freed what it was to move. -/
inductive GivesUp (s : Sanitizer) : Operation → Answer → Sanitizer → Prop where
  | free {id p : Nat} {api : Api} {stack : StackId} {t : Thread} {b : Block}
      {ev : Quarantine.Eviction} {e : AllocError} {s' : Sanitizer} (ht : s.thread? id = some t)
      (hb : b ∈ s.heap.chunks) (huser : b.record.userBegin = p) (hstate : b.record.state = .allocated)
      (hev : s.quarantine.put t.batch b.entry = .ok ev) (hevicted : 2 ≤ ev.evicted.length) :
      GivesUp s (.free id p api stack) (.error (.alloc e)) s'
  | reallocate {id p size : Nat} {t : Thread} {b : Block} {ev : Quarantine.Eviction}
      {e : AllocError} {s' : Sanitizer} (ht : s.thread? id = some t) (hb : b ∈ s.heap.chunks)
      (huser : b.record.userBegin = p) (hstate : b.record.state = .allocated)
      (hev : s.quarantine.put t.batch b.entry = .ok ev) (hevicted : ev.evicted ≠ [])
      (hgone : ∀ c ∈ s'.heap.chunks, c.record.userBegin = p → c.record.state ≠ .allocated) :
      GivesUp s (.reallocate id p size) (.error (.alloc e)) s'
  | unregister {id : Nat} {t : Thread} {ev : Quarantine.Eviction} {e : AllocError} {s' : Sanitizer}
      (ht : s.thread? id = some t) (hev : s.quarantine.drain t.batch = .ok ev)
      (hevicted : 2 ≤ ev.evicted.length) :
      GivesUp s (.unregister id) (.error (.alloc e)) s'

/-- A call was answered, and the sanitizer has come to another state. -/
def Answered (failing marked : Prop) (s : Sanitizer) (op : Operation) (answer : Answer)
    (s' : Sanitizer) : Prop :=
  ∃ ds, Comes failing marked s ds s'
    ∧ (¬ failing → s.Told op answer ds
      ∧ ∀ a, answer = .ok a → op.Allocates → s'.fakeStacks = s.fakeStacks)
    ∧ ((∀ d ∈ ds, d.Keeps) ∨ failing ∧ s.GivesUp op answer s')
    ∧ s.Signs op answer ds

/-- The call is answered, unless it is stopped. -/
def Answers (failing marked : Prop) (s : Sanitizer) (op : Operation) : Prop :=
  Act.EndsOrStops op.perform s (fun a s' => Answered failing marked s op (.ok a) s')
    fun e s' => Answered failing marked s op (.error e) s'

variable {failing marked : Prop} {s s' : Sanitizer} {t : Thread} {ds : List Deed}

/-- Deeds that tell nothing about calls are signed by any call. -/
theorem Signs.of_unsigned {op : Operation} {answer : Answer} (h : ∀ d ∈ ds, d.Unsigned) :
    s.Signs op answer ds :=
  ⟨.of_unsigned h, fun _ _ hd => (h _ hd).elim, fun _ hd => (h _ hd).elim⟩

/-- A free is signed by the call that it is for. -/
theorem Retires.signs {op : Operation} {a p : Nat} {api : Api} {origin : Origin} {b : Block}
    (h : Retires s t p api origin b ds) (horigin : origin = s.freedBy op p) (hop : op.frees? = some p) :
    s.Signs op (.ok a) ds := by
  obtain ⟨ev, -, rfl⟩ := h.deeds
  have hevicts := Deed.unsigned_evicts ev.evicted
  refine ⟨.retire_cons ?_ hevicts, fun c content hd => ?_, fun c hd _ _ => ?_⟩
  · show origin = s.freedBy op b.record.userBegin
    rw [h.user, horigin]
  · exact (List.mem_cons.mp hd).elim nofun fun hd => (hevicts _ hd).elim
  · rcases List.mem_cons.mp hd with heq | hd
    · cases heq
      show op.frees? = some b.record.userBegin
      rw [h.user, hop]
    · exact (hevicts _ hd).elim

/-- An unsigned deed before others that withhold is signed by the same call. -/
theorem Signs.unsigned_cons {op : Operation} {answer : Answer} {d : Deed} (h : s.Signs op answer ds)
    (hd : d.Unsigned) (hds : ∀ d ∈ ds, d.Withholds) : s.Signs op answer (d :: ds) := by
  refine ⟨h.signed.unsigned_cons hd hds, fun b content hb => ?_, fun b hb => ?_⟩
  · rcases List.mem_cons.mp hb with rfl | hb
    · exact hd.elim
    · exact (hds _ hb).elim
  · rcases List.mem_cons.mp hb with rfl | hb
    · exact hd.elim
    · exact h.frees b hb

/-- A call that hands a chunk out and returns it signs it, with what it does then. -/
theorem Signs.handOut_cons {op : Operation} {user : Nat} {b : Block} {content : Nat → UInt8}
    (hallocates : op.Allocates) (huser : b.record.userBegin = user)
    (horigin : b.record.allocated = s.allocatedBy op) (hds : ∀ d ∈ ds, d.Withholds)
    (h : s.Signs op (.ok user) ds) : s.Signs op (.ok user) (.handOut b content :: ds) := by
  refine ⟨.handOut_cons horigin h.signed hds, fun c content' hd a ha => ?_, fun c hd => ?_⟩
  · rcases List.mem_cons.mp hd with heq | hd
    · cases heq
      cases ha
      exact ⟨hallocates, huser.symm⟩
    · exact (hds _ hd).elim
  · exact h.frees c ((List.mem_cons.mp hd).resolve_left nofun)

/-- The user of a chunk begins at the answer. -/
theorem HandedOut.userBegin {o : RedzoneOptions} {user size : Nat} {api : Api} {origin : Origin}
    {b : Block} {content : Nat → UInt8} (h : HandedOut o user size api origin b content) :
    b.record.userBegin = user :=
  congrArg ChunkRecord.userBegin h.record

/-- The chunk is recorded to come from the call. -/
theorem HandedOut.allocated {o : RedzoneOptions} {user size : Nat} {api : Api} {origin : Origin}
    {b : Block} {content : Nat → UInt8} (h : HandedOut o user size api origin b content) :
    b.record.allocated = origin :=
  congrArg ChunkRecord.allocated h.record

/-- The deeds of a call that failed are recorded as its own. -/
theorem Signs.of_error {op : Operation} {e : SanitizerError}
    (h : Deed.Signed (s.allocatedBy op) (s.freedBy op) ds) : s.Signs op (.error e) ds :=
  ⟨h, fun _ _ _ => nofun, fun _ _ => nofun⟩

/-- A call is recorded with the number of its thread. -/
theorem tid_of_thread? {id : Nat} (ht : s.thread? id = some t) : t.tid = id % Thread.tidLimit :=
  congrArg (· % Thread.tidLimit) (Client.of_thread? ht).2

/-- What an answer tells is signed. -/
theorem Told.signs {op : Operation} {answer : Answer} (h : s.Told op answer ds) :
    s.Signs op answer ds := by
  have hnone : ∀ d ∈ ([] : List Deed), d.Unsigned := List.forall_mem_nil _
  cases h with
  | allocate ht hb =>
      refine .handOut_cons trivial hb.userBegin ?_ (List.forall_mem_nil _) (.of_unsigned hnone)
      rw [hb.allocated, tid_of_thread? ht]
      rfl
  | calloc ht hrecord =>
      refine .handOut_cons trivial (congrArg ChunkRecord.userBegin hrecord) ?_
        (List.forall_mem_singleton.mpr trivial) (.of_unsigned (List.forall_mem_singleton.mpr trivial))
      refine (congrArg ChunkRecord.allocated hrecord).trans ?_
      show s.originOf 0 _ 0 = _
      rw [tid_of_thread? ht]
      rfl
  | reallocateNone ht hb =>
      refine .handOut_cons (.inl rfl) hb.userBegin ?_ (List.forall_mem_nil _) (.of_unsigned hnone)
      rw [hb.allocated, tid_of_thread? ht]
      rfl
  | reallocateZero ht hp hb =>
      refine hb.signs ?_ (if_neg hp)
      rw [tid_of_thread? ht]
      rfl
  -- The copy signs nothing, and the old chunk is retired by the same call.
  | @reallocate id p size user t b b' content copied ds ht hp hsize hb hb' hcopied =>
      have hsigns : s.Signs (.reallocate id p size) (.ok user) ds := by
        refine hb.signs ?_ (if_neg hp)
        show _ = s.originOf (Client.tracesBefore p size p) (id % Thread.tidLimit) 0
        rw [tid_of_thread? ht, Client.tracesBefore, if_neg hsize, if_pos rfl]
      have hwithholds : ∀ d ∈ ds, d.Withholds := by
        obtain ⟨ev, -, rfl⟩ := hb.deeds
        exact List.forall_mem_cons.mpr ⟨trivial, fun d hd => (Deed.unsigned_evicts _ d hd).withholds⟩
      refine .handOut_cons (.inr hsize) hb'.userBegin ?_
        (List.forall_mem_cons.mpr ⟨trivial, hwithholds⟩) (hsigns.unsigned_cons trivial hwithholds)
      rw [hb'.allocated, tid_of_thread? ht]
      rfl
  | freeNone => exact .of_unsigned hnone
  | free ht hp hb =>
      refine hb.signs ?_ (if_neg hp)
      rw [tid_of_thread? ht]
      rfl
  | freeWrong => exact .of_unsigned hnone
  | unregister => exact .of_unsigned (Deed.unsigned_evicts _)
  | refused => exact .of_unsigned hnone
  | quiet => exact .of_unsigned hnone

/-- A call that has nothing to do with chunks has no deeds. -/
theorem Answered.quiet {op : Operation} {answer : Answer} (hop : ¬ op.OnChunks)
    (h : Comes failing marked s [] s') : Answered failing marked s op answer s' := by
  refine ⟨[], h, fun _ => ⟨?_, fun _ _ hallocates => ?_⟩, .inl (List.forall_mem_nil _),
    .of_unsigned (List.forall_mem_nil _)⟩
  · cases answer with
    | ok a => exact .quiet hop
    | error e =>
        refine .refused ?_
        rintro id p api stack rfl
        exact hop trivial
  · cases op <;> first | exact hallocates.elim | exact absurd trivial hop

/-- A refusal that is no verdict on a free leaves no trace. -/
theorem Answered.refused {op : Operation} {e : SanitizerError}
    (hop : ∀ id p api stack, op ≠ .free id p api stack) (h : Comes failing marked s [] s') :
    Answered failing marked s op (.error e) s' :=
  ⟨[], h, fun _ => ⟨.refused hop, nofun⟩, .inl (List.forall_mem_nil _),
    .of_unsigned (List.forall_mem_nil _)⟩

/-- A call that gave up was answered. -/
theorem Answered.gaveUp {op : Operation} {answer : Answer} (hfailing : failing)
    (h : Comes failing marked s ds s') (hgave : s.GivesUp op answer s')
    (hsigns : s.Signs op answer ds) : Answered failing marked s op answer s' :=
  ⟨ds, h, fun hnot => absurd hfailing hnot, .inr ⟨hfailing, hgave⟩, hsigns⟩

/-- Deeds that lose nothing are told, if the deeds of calls are. -/
theorem Answered.told {op : Operation} {a : Nat} (h : Comes failing marked s ds s')
    (htold : s.Told op (.ok a) ds) (hstacks : op.Allocates → s'.fakeStacks = s.fakeStacks)
    (hkeeps : ∀ d ∈ ds, d.Keeps) : Answered failing marked s op (.ok a) s' :=
  ⟨ds, h, fun _ => ⟨htold, fun _ _ => hstacks⟩, .inl hkeeps, htold.signs⟩

/-- A list cut behind a part that is not empty. -/
theorem two_le_of_cut {es done rest : List Entry} (hes : es = done ++ rest) (hdone : done ≠ [])
    (hrest : rest ≠ []) : 2 ≤ es.length := by
  rw [hes, List.length_append]
  have := List.length_pos_iff.mpr hdone
  have := List.length_pos_iff.mpr hrest
  omega

/-! ## Calls of threads -/

section Threads

variable {ε α : Type} {id : Nat} {act : Act ε Client α}

/-- The client of a registered thread is fit and its scene is sound. -/
theorem client_sound (hfit : s.Fit failing s.threads)
    (hsound : Scene.Sound failing marked (s.scene s.threads 0)) (ht : s.thread? id = some t) :
    Client.Fit failing ⟨t, s⟩ ∧ Scene.Sound failing marked (Client.scene ⟨t, s⟩ 0) := by
  have hmem := (Client.of_thread? ht).1
  refine ⟨Client.fit_of_thread hfit hmem, ?_⟩
  rw [Client.scene_of_thread hfit hmem]
  exact hsound

/-- What a call of a client without deeds comes to. -/
theorem comes_asThread (hfit : s.Fit failing s.threads)
    (hsound : Scene.Sound failing marked (s.scene s.threads 0))
    (h : ∀ t, s.thread? id = some t → Client.Fit failing ⟨t, s⟩ →
      Scene.Sound failing marked (Client.scene ⟨t, s⟩ 0) →
      Act.EndsOrStops act ⟨t, s⟩ (fun _ c => Client.Reaches failing marked ⟨t, s⟩ 0 [] c 0)
        fun _ c => Client.Reaches failing marked ⟨t, s⟩ 0 [] c 0) :
    Act.EndsOrStops (asThread id act) s (fun _ s' => Comes failing marked s [] s')
      fun _ s' => Comes failing marked s [] s' := by
  refine endsOrStops_asThread fun t ht => ?_
  obtain ⟨hclient, hscene⟩ := client_sound hfit hsound ht
  have hmem := (Client.of_thread? ht).1
  exact (h t ht hclient hscene).imp (fun _ _ hreach => hreach.comes hfit hmem)
    fun _ _ hreach => hreach.comes hfit hmem

end Threads

section Calls

variable {id : Nat}

/-- Calls on fake stacks have no deeds. -/
theorem answers_allocateFrame (hfit : s.Fit failing s.threads)
    (hsound : Scene.Sound failing marked (s.scene s.threads 0)) (classId size realStack : Nat) :
    Answers failing marked s (.allocateFrame id classId size realStack) := by
  have hop : ¬ (Operation.allocateFrame id classId size realStack).OnChunks := fun h => h
  refine (comes_asThread hfit hsound fun t _ hclient hscene => ?_).imp
    (fun _ _ h => .quiet hop h) fun _ _ h => .quiet hop h
  rw [Act.endsOrStops_mapError]
  exact (Client.ends_allocateFrame hclient hscene classId size realStack).imp (fun _ _ h => h.1)
    fun _ _ h => h.1

/-- A call that frees a frame answers. -/
theorem answers_freeFrame (hfit : s.Fit failing s.threads)
    (hsound : Scene.Sound failing marked (s.scene s.threads 0)) (p classId size realStack : Nat) :
    Answers failing marked s (.freeFrame id p classId size realStack) := by
  have hop : ¬ (Operation.freeFrame id p classId size realStack).OnChunks := fun h => h
  unfold Answers Operation.perform
  rw [Act.endsOrStops_map]
  refine (comes_asThread hfit hsound fun t _ hclient hscene => ?_).imp
    (fun _ _ h => .quiet hop h) fun _ _ h => .quiet hop h
  rw [Act.endsOrStops_mapError]
  exact ((Client.ends_freeFrame hclient hscene p classId size realStack).imp (fun _ _ h => h.1)
    fun _ _ h => h.1).orStops

/-- A call that leaves frames behind answers. -/
theorem answers_noReturn (hfit : s.Fit failing s.threads)
    (hsound : Scene.Sound failing marked (s.scene s.threads 0)) :
    Answers failing marked s (.noReturn id) := by
  have hop : ¬ (Operation.noReturn id).OnChunks := fun h => h
  unfold Answers Operation.perform
  rw [Act.endsOrStops_map]
  refine (comes_asThread hfit hsound fun t _ hclient hscene => ?_).imp
    (fun _ _ h => .quiet hop h) fun _ _ h => .quiet hop h
  exact ((Client.ends_noReturn hclient hscene).imp (fun _ _ h => h.1) fun _ _ h => h).orStops

/-! ## Calls on chunks -/

/-- An allocation answers. -/
theorem answers_allocate (hfit : s.Fit failing s.threads)
    (hsound : Scene.Sound failing marked (s.scene s.threads 0)) (size alignment : Nat) (api : Api)
    (stack : StackId) : Answers failing marked s (.allocate id size alignment api stack) := by
  refine endsOrStops_asThread fun t ht => ?_
  obtain ⟨hclient, hscene⟩ := client_sound hfit hsound ht
  have hmem := (Client.of_thread? ht).1
  rw [Act.endsOrStops_mapError]
  refine ((Client.ends_allocate hclient hscene size alignment api stack).imp ?_ ?_).orStops
  · rintro user c ⟨⟨b, content, hrecord, hfill, hreach⟩, hkeeps, -⟩
    exact .told (hreach.comes hfit hmem) (.allocate ht ⟨hrecord, hfill⟩) (fun _ => hkeeps.fakeStacks)
      (List.forall_mem_singleton.mpr trivial)
  · exact fun _ c hrefused => .refused nofun (hrefused.1.reaches.comes hfit hmem)

/-- An allocation of zeros answers. -/
theorem answers_calloc (hfit : s.Fit failing s.threads)
    (hsound : Scene.Sound failing marked (s.scene s.threads 0)) (times size : Nat) :
    Answers failing marked s (.calloc id times size) := by
  refine endsOrStops_asThread fun t ht => ?_
  obtain ⟨hclient, hscene⟩ := client_sound hfit hsound ht
  have hmem := (Client.of_thread? ht).1
  rw [Act.endsOrStops_mapError]
  refine ((Client.ends_calloc hclient hscene times size).imp ?_ ?_).orStops
  · rintro user c ⟨⟨b, content, hrecord, hreach⟩, hkeeps, -⟩
    refine .told (hreach.comes hfit hmem) (.calloc ht hrecord) (fun _ => hkeeps.fakeStacks) ?_
    exact List.forall_mem_cons.mpr ⟨trivial, List.forall_mem_singleton.mpr trivial⟩
  · exact fun _ c hrefused => .refused nofun (hrefused.1.reaches.comes hfit hmem)

/-- What retires a chunk keeps the bytes that users have. -/
theorem Retires.keeps {p : Nat} {api : Api} {origin : Origin} {b : Block}
    (h : Retires s t p api origin b ds) : ∀ d ∈ ds, d.Keeps := by
  obtain ⟨ev, -, rfl⟩ := h.deeds
  exact List.forall_mem_cons.mpr ⟨trivial, Deed.keeps_evicts _⟩

/-- The chunk of a free, seen from the sanitizer. -/
theorem retires_of_client {p : Nat} {api : Api} {origin : Origin} {c : Client} (hfit : s.Fit failing s.threads)
    (ht : s.thread? id = some t)
    (h : Client.Frees failing marked ⟨t, s⟩ 0 p api origin c) :
    p ≠ 0 ∧ ∃ b ds, Retires s t p api origin b ds ∧ Comes failing marked s ds c.settled := by
  have hmem := (Client.of_thread? ht).1
  obtain ⟨hp, b, hb, huser, hstate, hmismatch, ev, hev, -, -, hreach⟩ := h
  exact ⟨hp, b, _, ⟨hb, huser, hstate, hmismatch, ev, hev, rfl⟩, hreach.comes hfit hmem⟩

/-- A free of a registered thread is answered, never stopped. -/
theorem ends_free (hfit : s.Fit failing s.threads)
    (hsound : Scene.Sound failing marked (s.scene s.threads 0)) (ht : s.thread? id = some t) (p : Nat)
    (api : Api) (stack : StackId) :
    Act.Ends (Operation.free id p api stack).perform s
      (fun a s' => Answered failing marked s (.free id p api stack) (.ok a) s')
      fun e s' => Answered failing marked s (.free id p api stack) (.error e) s' := by
  obtain ⟨hclient, hscene⟩ := client_sound hfit hsound ht
  have hmem := (Client.of_thread? ht).1
  unfold Operation.perform
  rw [Act.ends_map]
  refine ends_asThread ht ((Client.ends_free hclient hscene p api stack).imp ?_ ?_)
  · rintro _ c ⟨-, ⟨rfl, hreach, -⟩ | hfrees⟩
    · exact .told (hreach.comes hfit hmem) .freeNone False.elim (List.forall_mem_nil _)
    · obtain ⟨hp, b, ds, hretires, hcomes⟩ := retires_of_client hfit ht hfrees
      exact .told hcomes (.free ht hp hretires) False.elim hretires.keeps
  · rintro _ c (⟨hp, ⟨w, rfl, hw, -⟩, hrests⟩ | ⟨-, -, hfailing, ⟨a, rfl⟩, b, hb, huser, hstate, ev, hev,
      done, rest, hevicted, hdone, hreach⟩)
    · exact ⟨[], hrests.reaches.comes hfit hmem, fun _ => ⟨.freeWrong ht hp hw, nofun⟩,
        .inl (List.forall_mem_nil _), .of_unsigned (List.forall_mem_nil _)⟩
    · have hcomes := hreach.comes hfit hmem
      have hsigns : s.Signs (.free id p api stack) (.error (.alloc a))
          (.retire (b.withRecord { b.record with
            state := .quarantined, freed := s.originOf 0 t.tid stack })
            :: (done.map .evict ++ [.lose rest])) := by
        refine .of_error (.retire_cons ?_ Client.unsigned_stopped)
        rw [tid_of_thread? ht]
        rfl
      by_cases hrest : rest = []
      · refine ⟨_, hcomes, fun hnot => absurd hfailing hnot, .inl ?_, hsigns⟩
        rw [hrest]
        exact List.forall_mem_cons.mpr ⟨trivial, List.forall_mem_append.mpr
          ⟨Deed.keeps_evicts _, List.forall_mem_singleton.mpr rfl⟩⟩
      · exact .gaveUp hfailing hcomes
          (.free ht hb huser hstate hev (two_le_of_cut hevicted hdone hrest)) hsigns

/-- A free answers. -/
theorem answers_free {id : Nat} (hfit : s.Fit failing s.threads)
    (hsound : Scene.Sound failing marked (s.scene s.threads 0)) (p : Nat) (api : Api)
    (stack : StackId) : Answers failing marked s (.free id p api stack) := by
  cases ht : s.thread? id with
  | some t => exact (ends_free hfit hsound ht p api stack).orStops
  | none =>
      unfold Answers Operation.perform
      rw [Act.endsOrStops_map]
      refine endsOrStops_asThread fun t ht' => ?_
      rw [ht] at ht'
      exact nomatch ht'

/-- A reallocation answers. -/
theorem answers_reallocate (hfit : s.Fit failing s.threads)
    (hsound : Scene.Sound failing marked (s.scene s.threads 0)) (p size : Nat) :
    Answers failing marked s (.reallocate id p size) := by
  refine endsOrStops_asThread fun t ht => ?_
  obtain ⟨hclient, hscene⟩ := client_sound hfit hsound ht
  have hmem := (Client.of_thread? ht).1
  refine ((Client.ends_reallocate hclient hscene p size).imp ?_ ?_).orStops
  · rintro user c ⟨⟨n, hkeeps⟩,
      ⟨rfl, ⟨b, content, hrecord, hfill, hreach⟩, -⟩ | ⟨hp, rfl, rfl, hfrees⟩ | ⟨hsize, hrelocates⟩⟩
    · exact .told (hreach.comes hfit hmem) (.reallocateNone ht ⟨hrecord, hfill⟩)
        (fun _ => hkeeps.fakeStacks) (List.forall_mem_singleton.mpr trivial)
    · obtain ⟨-, b, ds, hretires, hcomes⟩ := retires_of_client hfit ht hfrees
      exact .told hcomes (.reallocateZero ht hp hretires) (fun _ => hkeeps.fakeStacks) hretires.keeps
    · obtain ⟨hp, b, hb, huser, hstate, hmismatch, b', content, copied, hrecord, hfill, hcopied, ev,
        hev, -, hreach⟩ := hrelocates
      have hretires : Retires s t p .malloc (s.originOf 1 t.tid 0) b _ :=
        ⟨hb, huser, hstate, hmismatch, ev, hev, rfl⟩
      exact .told (hreach.comes hfit hmem) (.reallocate ht hp hsize hretires ⟨hrecord, hfill⟩ hcopied)
        (fun _ => hkeeps.fakeStacks)
        (List.forall_mem_cons.mpr ⟨trivial, List.forall_mem_cons.mpr ⟨trivial, hretires.keeps⟩⟩)
  · rintro _ c (⟨hrests, -⟩ | ⟨-, hfailing, ⟨a, rfl⟩, b, hb, huser, hstate, ev, hev, hevicted, before,
      origin, after, hafter, hsigned, hreach⟩)
    · exact .refused nofun (hrests.reaches.comes hfit hmem)
    · have hcomes := hreach.comes hfit hmem
      refine .gaveUp hfailing hcomes (.reallocate ht hb huser hstate hev hevicted ?_) ?_
      · rw [← huser]
        exact hsound.retired_gone hcomes.moves hafter
      · refine .of_error ?_
        rw [tid_of_thread? ht] at hsigned
        exact hsigned

end Calls

/-! ## Other calls -/

/-- A registration answers. -/
theorem answers_register (hfit : s.Fit failing s.threads) :
    Answers failing marked s .register :=
  ((ends_register hfit).imp (fun _ _ h => .quiet (fun hop => hop) h.2)
    fun _ _ h => .quiet (fun hop => hop) h).orStops

/-- A thread that leaves is answered. -/
theorem answers_unregister {id : Nat} (hfit : s.Fit failing s.threads)
    (hsound : Scene.Sound failing marked (s.scene s.threads 0)) :
    Answers failing marked s (.unregister id) := by
  unfold Answers Operation.perform
  rw [Act.endsOrStops_map]
  cases ht : s.thread? id with
  | none =>
      unfold Act.EndsOrStops Sanitizer.unregister
      rw [ht]
      exact trivial
  | some t =>
      refine ((ends_unregister hfit hsound ht).imp ?_ ?_).orStops
      · rintro _ s' ⟨ev, hev, hcomes⟩
        exact .told hcomes (.unregister ht hev) False.elim (Deed.keeps_evicts _)
      · rintro _ s' ⟨hfailing, ev, hev, ⟨⟨a, rfl⟩, done, rest, hevicted, hdone, hcomes⟩ | hcomes⟩
        · have hunsigned : ∀ d ∈ done.map Deed.evict ++ [.lose rest, .lose 0], d.Unsigned :=
            List.forall_mem_append.mpr ⟨Deed.unsigned_evicts _,
              List.forall_mem_cons.mpr ⟨trivial, List.forall_mem_singleton.mpr trivial⟩⟩
          by_cases hrest : rest = []
          · refine ⟨_, hcomes, fun hnot => absurd hfailing hnot, .inl ?_, .of_unsigned hunsigned⟩
            rw [hrest]
            exact List.forall_mem_append.mpr ⟨Deed.keeps_evicts _,
              List.forall_mem_cons.mpr ⟨rfl, List.forall_mem_singleton.mpr rfl⟩⟩
          · exact .gaveUp hfailing hcomes
              (.unregister ht hev (two_le_of_cut hevicted hdone hrest)) (.of_unsigned hunsigned)
        · exact ⟨_, hcomes, fun hnot => absurd hfailing hnot, .inl (List.forall_mem_append.mpr
            ⟨Deed.keeps_evicts _, List.forall_mem_singleton.mpr rfl⟩),
            .of_unsigned (List.forall_mem_append.mpr
              ⟨Deed.unsigned_evicts _, List.forall_mem_singleton.mpr trivial⟩)⟩

/-- What the caller reaches comes about. -/
theorem Reaches.comes (h : Reaches failing marked s s.threads 0 ds s' s.threads 0) :
    Comes failing marked s ds s' := by
  refine ⟨?_, h.config, ?_, ?_, h.counts, h.guards⟩ <;> rw [h.threads]
  · exact h.fit
  · exact h.moves
  · exact h.lasts

/-- Where all is alike nothing comes about. -/
theorem Like.comes {n : Nat} (h : Like n s s') (hfit : s.Fit failing s.threads) :
    Comes failing marked s [] s' :=
  (h.reaches hfit).comes

/-- The user's marks change nothing but what can be accessed. -/
theorem ends_userMark (hmarked : marked) (hfit : s.Fit failing s.threads)
    {mark : Act ShadowError Shadow Unit}
    (hmark : ∀ shadow, Act.Ends mark shadow (fun _ t => Shadow.SameRange shadow t)
      fun _ t => Shadow.SameRange shadow t) :
    Act.Ends (userMark mark) s (fun _ s' => Comes failing marked s [] s')
      fun _ s' => Comes failing marked s [] s' := by
  unfold userMark
  rw [Act.ends_bind, Act.ends_get]
  by_cases hallow : (!s.config.allowUserPoisoning) = true
  · rw [if_pos hallow]
    exact (Reaches.refl hfit).comes
  rw [if_neg hallow, Act.ends_bind]
  refine (ends_count (by decide)).imp ?_ fun _ _ hno => hno
  intro _ u hlike
  have hstart : Reaches failing marked s s.threads 0 [] u s.threads 0 := hlike.reaches hfit
  have hdone : ∀ shadow, Shadow.SameRange u.heap.shadow shadow →
      Comes failing marked s [] { u with heap := { u.heap with shadow } } := by
    intro shadow hrange
    have hstep := hstart.fit.heap.withShadow hrange
    have hmark : Reaches failing marked u s.threads 0 [] { u with heap := { u.heap with shadow } }
        s.threads 0 :=
      ⟨{ hstart.fit with heap := hstep.wf }, rfl, rfl, rfl, Moves.one (.mark hmarked _),
        Still.lasts ⟨rfl, rfl, rfl, absurd hmarked, rfl, .refl _, rfl, fun _ _ => rfl⟩,
        fun _ => .of_same fun _ _ => rfl, fun hnot => absurd hmarked hnot⟩
    exact (hstart.trans hmark).comes
  unfold Heap.onShadow
  rw [Act.ends_onPart, Act.ends_mapError, Act.ends_onPart]
  exact (hmark u.heap.shadow).imp (fun _ _ h => hdone _ h) fun _ _ h => hdone _ h

/-- A range that is poisoned by hand is answered. -/
theorem answers_poison (hmarked : marked) (hfit : s.Fit failing s.threads) (addr size : Nat) :
    Answers failing marked s (.poison addr size) := by
  unfold Answers Operation.perform poisonRegion
  rw [Act.endsOrStops_map, Act.endsOrStops_mapError]
  refine ((ends_userMark hmarked hfit fun shadow => ?_).imp (fun _ _ h => .quiet (fun hop => hop) h)
    fun _ _ h => .quiet (fun hop => hop) h).orStops
  exact Shadow.ends_markUser (Shadow.userPoisoned_sameRange shadow addr size)

theorem answers_unpoison (hmarked : marked) (hfit : s.Fit failing s.threads) (addr size : Nat) :
    Answers failing marked s (.unpoison addr size) := by
  unfold Answers Operation.perform unpoisonRegion
  rw [Act.endsOrStops_map, Act.endsOrStops_mapError]
  refine ((ends_userMark hmarked hfit fun shadow => ?_).imp (fun _ _ h => .quiet (fun hop => hop) h)
    fun _ _ h => .quiet (fun hop => hop) h).orStops
  exact Shadow.ends_markUser (Shadow.userUnpoisoned_sameRange shadow addr size)

/-- A report takes one trace. -/
theorem answers_classify (hfit : s.Fit failing s.threads) (tid addr : Nat) (isWrite : Bool)
    (size : Nat) : Answers failing marked s (.classify tid addr isWrite size) := by
  unfold Answers Operation.perform Sanitizer.classify
  rw [Act.endsOrStops_map, Act.endsOrStops_bind]
  show Act.EndsOrStops _ { s with captures := s.captures + 1 } _ _
  rw [Act.endsOrStops_bind]
  refine (Act.ends_get.mpr ?_).orStops
  rw [Act.endsOrStops_liftM]
  intro report _
  have hlike : Like 1 s { s with captures := s.captures + 1 } :=
    ⟨rfl, rfl, rfl, rfl, rfl, rfl, rfl, rfl, rfl, fun _ _ => rfl⟩
  exact .quiet (fun hop => hop) (hlike.comes hfit)

/-- A change of the exit code is answered. -/
theorem answers_setExitCode (hfit : s.Fit failing s.threads) (code : Int) :
    Answers failing marked s (.setExitCode code) := by
  unfold Answers Operation.perform Sanitizer.setExitCode
  rw [Act.endsOrStops_map]
  have hlike : Like 0 s { s with exitCode := code } :=
    ⟨rfl, rfl, rfl, rfl, rfl, rfl, rfl, rfl, rfl, fun _ _ => rfl⟩
  exact .quiet (fun hop => hop) (hlike.comes hfit)

/-- A report of statistics is answered. -/
theorem answers_reportStats (hfit : s.Fit failing s.threads) :
    Answers failing marked s .reportStats := by
  unfold Answers Operation.perform Sanitizer.reportStats emitStats
  rw [Act.endsOrStops_map, Act.endsOrStops_bind, Act.endsOrStops_bind]
  refine (Act.ends_get.mpr ?_).orStops
  rw [Act.endsOrStops_bind]
  refine Act.Ends.orStops ?_
  refine (ends_emit hfit.clock _ _ _).imp (fun _ u hlike => ?_) fun _ _ hno => hno
  exact .quiet (fun hop => hop) (hlike.comes hfit)

/-- Whatever is called, the call is answered unless it is stopped. -/
theorem answers_perform (hfit : s.Fit failing s.threads)
    (hsound : Scene.Sound failing marked (s.scene s.threads 0)) (op : Operation)
    (hmarks : op.Marks → marked) : Answers failing marked s op := by
  cases op with
  | register => exact answers_register hfit
  | unregister id => exact answers_unregister hfit hsound
  | allocate id size alignment api stack => exact answers_allocate hfit hsound size alignment api stack
  | calloc id times size => exact answers_calloc hfit hsound times size
  | reallocate id p size => exact answers_reallocate hfit hsound p size
  | free id p api stack => exact answers_free hfit hsound p api stack
  | allocateFrame id classId size realStack =>
      exact answers_allocateFrame hfit hsound classId size realStack
  | freeFrame id p classId size realStack => exact answers_freeFrame hfit hsound p classId size realStack
  | noReturn id => exact answers_noReturn hfit hsound
  | poison addr size => exact answers_poison (hmarks trivial) hfit addr size
  | unpoison addr size => exact answers_unpoison (hmarks trivial) hfit addr size
  | classify tid addr isWrite size => exact answers_classify hfit tid addr isWrite size
  | setExitCode code => exact answers_setExitCode hfit code
  | reportStats => exact answers_reportStats hfit

end Sanitizer

end GuardedHeap
