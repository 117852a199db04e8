import GuardedHeap.Proofs.Marks
import GuardedHeap.Proofs.Sanitizer.Lasting
import Mathlib.Tactic.Abel

/-! # Clients — what the steps of a call do to the scene

    A call of a thread is a chain of steps: on the counters and the log,
    which the scene does not show (`Like`), on the session of the thread
    (`reaches_session`), and on the quarantine, whose entries pass through
    the hand of the thread (`ends_quarantine`, `ends_drainBatch`,
    `ends_recycle`). -/

namespace GuardedHeap

open Quarantine (Entry)

namespace Sanitizer

variable {failing marked : Prop} {s s' s'' : Sanitizer} {ts ts' ts'' : List Thread}
  {hand hand' hand'' : Multiset Entry} {ds es : List Deed}

/-- The sanitizer has got to `s'` with the threads `ts'`, the scene has moved, what lasts has
    lasted, the counters of chunks have counted the deeds, and unless users mark the shadow the
    chunks are guarded if they were before. -/
structure Reaches (failing marked : Prop) (s : Sanitizer) (ts : List Thread)
    (hand : Multiset Entry) (ds : List Deed) (s' : Sanitizer) (ts' : List Thread)
    (hand' : Multiset Entry) : Prop where
  fit : s'.Fit failing ts'
  threads : s'.threads = s.threads
  registrations : s'.registrations = s.registrations
  config : s'.config = s.config
  moves : Moves failing marked (s.scene ts hand) ds (s'.scene ts' hand')
  lasts : Lasts failing marked s ts hand s' ts' hand'
  counts : ¬ failing → Deed.Counted ds s.metrics s'.metrics
  guards : ¬ marked → s.heap.Guarded → s'.heap.Guarded

/-- The chunks are guarded as before. -/
theorem Still.guards (h : Still marked s ts hand s' ts' hand') (hmarked : ¬ marked)
    (hguarded : s.heap.Guarded) : s'.heap.Guarded :=
  hguarded.kept fun b hb => ⟨h.chunks ▸ hb, h.code hmarked b (h.chunks ▸ hb)⟩

/-- Nothing has happened to the counters of chunks. -/
theorem Still.counted (h : Still marked s ts hand s' ts' hand') :
    Deed.Counted [] s.metrics s'.metrics :=
  .of_same h.counters

namespace Reaches

/-- A sanitizer that stays has done nothing. -/
theorem refl (hfit : s.Fit failing ts) : Reaches failing marked s ts hand [] s ts hand :=
  ⟨hfit, rfl, rfl, rfl, .none _, (Still.refl ..).lasts, fun _ => .of_same fun _ _ => rfl, fun _ => id⟩

/-- Steadiness lasts. -/
theorem steady (h : Reaches failing marked s ts hand ds s' ts' hand')
    (hsteady : Steady failing marked s ts hand) : Steady failing marked s' ts' hand' :=
  ⟨hsteady.calm, h.fit, hsteady.sound.moves h.moves⟩

/-- What is done one after the other is done together. -/
theorem trans (h : Reaches failing marked s ts hand ds s' ts' hand')
    (h' : Reaches failing marked s' ts' hand' es s'' ts'' hand'') :
    Reaches failing marked s ts hand (ds ++ es) s'' ts'' hand'' :=
  ⟨h'.fit, h'.threads.trans h.threads, h'.registrations.trans h.registrations,
    h'.config.trans h.config, h.moves.trans h'.moves, fun hsteady K hK hstart =>
      h'.lasts (h.steady hsteady) K hK (h.lasts hsteady K hK hstart),
    fun hcalm => (h.counts hcalm).trans (h'.counts hcalm),
    fun hmarked hguarded => h'.guards hmarked (h.guards hmarked hguarded)⟩

/-- What can be seen of a sound scene stays sound. -/
theorem sound (h : Reaches failing marked s ts hand ds s' ts' hand')
    (hsound : Scene.Sound failing marked (s.scene ts hand)) :
    Scene.Sound failing marked (s'.scene ts' hand') :=
  hsound.moves h.moves

end Reaches

/-! ## What the scene does not show -/

/-- The sanitizers differ in log entries and in counters that do not tell of chunks, and `n` traces
    were taken. -/
structure Like (n : Nat) (s t : Sanitizer) : Prop where
  config : t.config = s.config
  heap : t.heap = s.heap
  quarantine : t.quarantine = s.quarantine
  fakeStacks : t.fakeStacks = s.fakeStacks
  threads : t.threads = s.threads
  registrations : t.registrations = s.registrations
  clock : t.clock = s.clock
  capture : t.capture = s.capture
  captures : t.captures = s.captures + n
  counters : ∀ k ∈ Counter.ofChunks, t.metrics.value k = s.metrics.value k

namespace Like

variable {n : Nat}

theorem refl (s : Sanitizer) : Like 0 s s :=
  ⟨rfl, rfl, rfl, rfl, rfl, rfl, rfl, rfl, rfl, fun _ _ => rfl⟩

theorem logged (s : Sanitizer) (log : EventLog) : Like 0 s { s with log } :=
  ⟨rfl, rfl, rfl, rfl, rfl, rfl, rfl, rfl, rfl, fun _ _ => rfl⟩

/-- What differs by some captures, and then by others, differs by both. -/
theorem trans {m : Nat} (h : Like n s s') (h' : Like m s' s'') : Like (n + m) s s'' :=
  ⟨h'.config.trans h.config, h'.heap.trans h.heap, h'.quarantine.trans h.quarantine,
    h'.fakeStacks.trans h.fakeStacks, h'.threads.trans h.threads,
    h'.registrations.trans h.registrations, h'.clock.trans h.clock, h'.capture.trans h.capture, by
    rw [h'.captures, h.captures, Nat.add_assoc],
    fun k hk => (h'.counters k hk).trans (h.counters k hk)⟩

/-- A sanitizer that is alike fits as well. -/
theorem fit (h : Like n s s') (hfit : s.Fit failing ts) : s'.Fit failing ts where
  heap := h.heap ▸ hfit.heap
  calm := h.heap ▸ hfit.calm
  clock := h.clock ▸ hfit.clock
  config := h.config ▸ hfit.config
  classes := by rw [h.heap, h.config, hfit.classes]
  queue := h.quarantine ▸ hfit.queue
  cache := h.heap ▸ hfit.cache
  batch := hfit.batch
  ids_nodup := hfit.ids_nodup
  id_lt := h.registrations ▸ hfit.id_lt
  stack := h.fakeStacks ▸ hfit.stack
  owners_nodup := h.fakeStacks ▸ hfit.owners_nodup
  owner_lt := by
    rw [h.fakeStacks, h.registrations]
    exact hfit.owner_lt

theorem scene (h : Like n s s') : s'.scene ts hand = s.scene ts hand := by
  unfold Sanitizer.scene backing claimed
  rw [h.heap, h.quarantine, h.fakeStacks]

theorem still (h : Like n s s') : Still marked s ts hand s' ts hand where
  config := h.config
  large := h.heap ▸ rfl
  chunks := h.heap ▸ rfl
  code _ _ _ _ _ := h.heap ▸ rfl
  waiting := congrArg Scene.waiting h.scene
  ids := .refl _
  owners := h.fakeStacks ▸ rfl
  counters := h.counters

/-- A sanitizer that is alike has done nothing. -/
theorem reaches (h : Like n s s') (hfit : s.Fit failing ts) :
    Reaches failing marked s ts hand [] s' ts hand :=
  ⟨h.fit hfit, h.threads, h.registrations, h.config, (Moves.none _).of_eq h.scene.symm,
    h.still.lasts, fun _ => .of_same h.counters,
    fun _ hguarded => h.heap ▸ hguarded⟩

/-- Counting on both sides. -/
theorem counted (h : Like n s s') (one many : Counter) (amount : Nat) :
    Like n (s.counted one many amount) (s'.counted one many amount) :=
  { h with
    counters := fun k hk => by
      have hsame := h.counters k hk
      unfold Sanitizer.counted Metrics.inc
      simp only [Metrics.value_add]
      by_cases hmany : k = many <;> by_cases hone : k = one <;> by_cases hboth : many = one <;>
        simp_all }

end Like

section Alike

variable {ε : Type} {no : ε → Sanitizer → Prop}

theorem ends_countBy {counter : Counter} (hcounter : counter ∉ Counter.ofChunks) (amount : Nat) :
    Act.Ends (countBy counter amount) s (fun _ t => Like 0 s t) no := by
  refine Act.ends_modify.mpr ⟨rfl, rfl, rfl, rfl, rfl, rfl, rfl, rfl, rfl, fun k hk => ?_⟩
  exact (Metrics.value_add ..).trans (if_neg fun heq : k = counter => hcounter (heq ▸ hk))

theorem ends_count {counter : Counter} (hcounter : counter ∉ Counter.ofChunks) :
    Act.Ends (count counter) s (fun _ t => Like 0 s t) no :=
  ends_countBy hcounter 1

/-- An event is logged, as the clock shows a moment. -/
theorem ends_emit_eq (hclock : s.clock.isSome = true) (level : EventLog.Level) (event : String)
    (more : EventLog.Entry → EventLog.Entry) :
    Act.Ends (emit level event more) s (fun _ t => t = { s with log := t.log }) no := by
  obtain ⟨now, hnow⟩ := Option.isSome_iff_exists.mp hclock
  unfold emit
  rw [Act.ends_bind, Act.ends_get, Act.ends_bind, Act.ends_orStop]
  exact ⟨now, hnow, Act.ends_modify.mpr rfl⟩

/-- The scene does not show that an event is logged. -/
theorem ends_emit (hclock : s.clock.isSome = true) (level : EventLog.Level) (event : String)
    (more : EventLog.Entry → EventLog.Entry) :
    Act.Ends (emit level event more) s (fun _ t => Like 0 s t) no := by
  refine (ends_emit_eq hclock level event more).imp (fun _ t ht => ?_) fun _ _ hno => hno
  rw [ht]
  exact .logged s _

/-- The traces that a call takes. -/
def traces (stack : StackId) : Nat :=
  if stack = 0 then 1 else 0

/-- Where a call of a thread comes from, if `earlier` traces have been taken since `s`. -/
def originOf (s : Sanitizer) (earlier tid : Nat) (stack : StackId) : Origin where
  stack :=
    if stack = 0 then
      s.capture s.config.mallocContextSize (s.captures + earlier)
    else stack
  tid

/-- Finding out where a call comes from takes a trace, if the caller has none. -/
theorem ends_origin (tid : Nat) (stack : StackId) :
    Act.Ends (origin tid stack) s
      (fun o t => o = s.originOf 0 tid stack
        ∧ t = { s with captures := s.captures + traces stack }) no := by
  unfold origin traces originOf
  by_cases hstack : stack = 0
  · rw [if_pos hstack, if_pos hstack, if_pos hstack, Act.ends_bind]
    exact ⟨rfl, rfl⟩
  · rw [if_neg hstack, if_neg hstack, if_neg hstack, Act.ends_bind, Act.ends_pure]
    exact ⟨rfl, rfl⟩

theorem Like.captured (s : Sanitizer) (n : Nat) :
    Like n s { s with captures := s.captures + n } :=
  ⟨rfl, rfl, rfl, rfl, rfl, rfl, rfl, rfl, rfl, fun _ _ => rfl⟩

end Alike

namespace Client

variable {c c' c'' : Client}

/-- The threads besides the one at work. -/
def others (c : Client) : List Thread :=
  c.shared.threads.filter (·.id != c.thread.id)

/-- All threads, the one at work first. -/
def crew (c : Client) : List Thread :=
  c.thread :: c.others

/-- The parts of a client agree. -/
def Fit (failing : Prop) (c : Client) : Prop :=
  c.shared.Fit failing c.crew

/-- The scene of a client with some entries in hand. -/
def scene (c : Client) (hand : Multiset Entry) : Scene :=
  c.shared.scene c.crew hand

/-- The client has got to `c'`, and the scene has moved. -/
structure Reaches (failing marked : Prop) (c : Client) (hand : Multiset Entry) (ds : List Deed)
    (c' : Client) (hand' : Multiset Entry) : Prop where
  id : c'.thread.id = c.thread.id
  shared : Sanitizer.Reaches failing marked c.shared c.crew hand ds c'.shared c'.crew hand'

namespace Reaches

theorem fit (h : Reaches failing marked c hand ds c' hand') : c'.Fit failing :=
  h.shared.fit

theorem refl (hfit : c.Fit failing) : Reaches failing marked c hand [] c hand :=
  ⟨rfl, .refl hfit⟩

/-- What is done one after the other is done together. -/
theorem trans (h : Reaches failing marked c hand ds c' hand')
    (h' : Reaches failing marked c' hand' es c'' hand'') :
    Reaches failing marked c hand (ds ++ es) c'' hand'' :=
  ⟨h'.id.trans h.id, h.shared.trans h'.shared⟩

/-- A step without a deed adds none. -/
theorem quietly (h : Reaches failing marked c hand ds c' hand')
    (h' : Reaches failing marked c' hand' [] c'' hand'') :
    Reaches failing marked c hand ds c'' hand'' := by
  have hall := h.trans h'
  rwa [List.append_nil] at hall

/-- What is done to a sound scene leaves a sound one. -/
theorem sound (h : Reaches failing marked c hand ds c' hand')
    (hsound : Scene.Sound failing marked (c.scene hand)) :
    Scene.Sound failing marked (c'.scene hand') :=
  h.shared.sound hsound

end Reaches

/-- A step on the shared state alone. -/
theorem reaches_shared (h : Sanitizer.Reaches failing marked c.shared c.crew hand ds s' c.crew hand') :
    Reaches failing marked c hand ds { c with shared := s' } hand' := by
  refine ⟨rfl, ?_⟩
  have hcrew : crew { c with shared := s' } = c.crew := by
    unfold crew others
    rw [h.threads]
  rw [hcrew]
  exact h

/-- An action on the shared state is one of the client. -/
theorem ends_onShared {ε α : Type} {act : Act ε Sanitizer α} {ok : α → Client → Prop}
    {no : ε → Client → Prop} :
    Act.Ends (onShared act) c ok no ↔
      Act.Ends act c.shared (fun a s => ok a { c with shared := s }) fun e s =>
        no e { c with shared := s } := by
  unfold onShared
  rw [Act.ends_onPart]

/-- The clients have the same fake stacks, and `n` traces were taken. -/
structure Keeps (n : Nat) (c c' : Client) : Prop where
  fakeStacks : c'.shared.fakeStacks = c.shared.fakeStacks
  capture : c'.shared.capture = c.shared.capture
  captures : c'.shared.captures = c.shared.captures + n

theorem Keeps.trans {n m : Nat} (h : Keeps n c c') (h' : Keeps m c' c'') : Keeps (n + m) c c'' :=
  ⟨h'.fakeStacks.trans h.fakeStacks, h'.capture.trans h.capture, by
    rw [h'.captures, h.captures, Nat.add_assoc]⟩

theorem Keeps.of_like {n : Nat} (h : Like n c.shared s') : Keeps n c { c with shared := s' } :=
  ⟨h.fakeStacks, h.capture, h.captures⟩

variable (marked hand) in
/-- Finding out where a call comes from is no move, and the call goes on. -/
theorem ends_traced {ε β : Type} {tid : Nat} {stack : StackId} {next : Origin → Act ε Client β}
    {ok : β → Client → Prop} {no : ε → Client → Prop} (hfit : c.Fit failing)
    (hnext : ∀ t, t = { c.shared with captures := c.shared.captures + traces stack } →
      Like (traces stack) c.shared t → Reaches failing marked c hand [] { c with shared := t } hand →
      Act.Ends (next (c.shared.originOf 0 tid stack)) { c with shared := t } ok no) :
    Act.Ends (onShared (origin tid stack) >>= next) c ok no := by
  rw [Act.ends_bind, ends_onShared]
  refine (ends_origin tid stack).imp ?_ fun _ _ hno => hno
  rintro _ _ ⟨rfl, rfl⟩
  have hlike := Like.captured c.shared (traces stack)
  exact hnext _ rfl hlike (reaches_shared (hlike.reaches hfit))

/-- Two counters count, and the call goes on. -/
theorem ends_counts {ε β : Type} {next : Act ε Client β} {ok : β → Client → Prop}
    {no : ε → Client → Prop} (one many : Counter) (amount : Nat)
    (hnext : Act.Ends next { c with shared := c.shared.counted one many amount } ok no) :
    Act.Ends (onShared (count one) >>= fun _ => onShared (countBy many amount) >>= fun _ => next)
      c ok no := by
  rw [Act.ends_bind, ends_onShared]
  refine Act.ends_modify.mpr ?_
  rw [Act.ends_bind, ends_onShared]
  exact Act.ends_modify.mpr hnext

/-! ## The session -/

/-- What the others of a session hold. -/
def holders (c : Client) (hand : Multiset Entry) : Holders :=
  c.shared.holders c.others (hand + (c.thread.batch.entries : Multiset Entry))

theorem scene_session (c : Client) (hand : Multiset Entry) :
    c.scene hand = c.session.scene (c.holders hand) :=
  scene_eq c.shared c.thread c.others hand

theorem session_wf (hfit : c.Fit failing) : c.session.WF :=
  ⟨hfit.heap, hfit.cache _ List.mem_cons_self⟩

/-- The same threads but for what the caches hold. -/
theorem still_cache (marked : Prop) (s : Sanitizer) (c : Client) (cache : Cache) (hand : Multiset Entry) :
    Still marked s c.crew hand s ({ c.thread with cache } :: c.others) hand where
  config := rfl
  large := rfl
  chunks := rfl
  code _ _ _ _ _ := rfl
  waiting := by
    show hand + (_ + batched (_ :: _)) = hand + (_ + batched (_ :: _))
    rw [batched_cons, batched_cons]
  ids := .refl _
  owners := rfl
  counters _ _ := rfl

/-- A step of the session is one of the client, and may go along with counting. -/
theorem reaches_session {t : Heap.Session} {m : Metrics} (hfit : c.Fit failing)
    (h : Heap.Session.Goes failing marked c.session (c.holders hand) ds t (c.holders hand'))
    (hlasts : Lasts failing marked c.shared c.crew hand
      { c.shared with heap := t.heap, metrics := m } c.crew hand')
    (hcounts : ¬ failing → Deed.Counted ds c.shared.metrics m)
    (hguards : ¬ marked → c.shared.heap.Guarded → t.heap.Guarded) :
    Reaches failing marked c hand ds
      ⟨{ c.thread with cache := t.cache }, { c.shared with heap := t.heap, metrics := m }⟩ hand' := by
  refine ⟨rfl, ⟨?_, rfl, rfl, rfl, ?_, fun hsteady K hK hstart =>
    hK.still (still_cache ..) (hlasts hsteady K hK hstart), hcounts, hguards⟩⟩
  · have hclasses : t.heap.classes = c.shared.heap.classes := h.classes
    have hcrew : crew (c.withSession t) = (c.withSession t).thread :: c.others := rfl
    -- The cache of this thread is the session's, those of the others stay.
    have hcached : ∀ u ∈ crew (c.withSession t), u.cache.lists.size = t.heap.classes.count := by
      intro u hu
      rcases List.mem_cons.mp hu with rfl | hu
      · exact h.wf.cache
      · rw [hclasses]
        exact hfit.cache u (List.mem_cons_of_mem _ hu)
    exact
      { hfit with
        heap := h.wf.heap
        calm := fun hnot => h.calm (hfit.calm hnot)
        classes := hclasses.trans hfit.classes
        cache := hcached
        batch := by
          intro u hu
          rcases List.mem_cons.mp hu with rfl | hu
          · exact hfit.batch c.thread List.mem_cons_self
          · exact hfit.batch u (List.mem_cons_of_mem _ hu)
        id_lt := by
          intro u hu
          rcases List.mem_cons.mp hu with rfl | hu
          · exact hfit.id_lt c.thread List.mem_cons_self
          · exact hfit.id_lt u (List.mem_cons_of_mem _ hu) }
  · have hmoves := h.moves
    rw [← scene_session] at hmoves
    exact hmoves.of_eq (scene_session (c.withSession t) hand').symm

/-- A step of the session that leaves chunks and large blocks as they are. -/
theorem reaches_session_still {t : Heap.Session} (hfit : c.Fit failing)
    (h : Heap.Session.Goes failing marked c.session (c.holders hand) ds t (c.holders hand))
    (hlarge : t.heap.large = c.shared.heap.large) (hchunks : t.heap.chunks = c.shared.heap.chunks)
    (hshadow : t.heap.shadow = c.shared.heap.shadow) (huncounted : ∀ k, Deed.added ds k = 0) :
    Reaches failing marked c hand ds (c.withSession t) hand := by
  have hstill : Still marked c.shared c.crew hand
      { c.shared with heap := t.heap, metrics := c.shared.metrics } c.crew hand :=
    { config := rfl
      large := hlarge
      chunks := hchunks
      code := fun _ _ _ _ _ => congrArg (Shadow.code · _) hshadow
      waiting := rfl
      ids := .refl _
      owners := rfl
      counters := fun _ _ => rfl }
  exact reaches_session (m := c.shared.metrics) hfit h hstill.lasts
    (fun _ => .of_uncounted huncounted fun _ _ => rfl) hstill.guards

/-- An action on the session is one of the client. -/
theorem ends_onSession {ε α : Type} {act : Act ε Heap.Session α} {ok : α → Client → Prop}
    {no : ε → Client → Prop} :
    Act.Ends (onSession act) c ok no ↔
      Act.Ends act c.session (fun a t => ok a (c.withSession t)) fun e t =>
        no e (c.withSession t) := by
  unfold onSession
  rw [Act.ends_onPart]

/-! ## The hand -/

/-- The thread has taken no entries to or from the quarantine. -/
structure SameQuarantine (c c' : Client) : Prop where
  queue : c'.shared.quarantine = c.shared.quarantine
  batch : c'.thread.batch = c.thread.batch

/-- The queue and the batch are what an eviction left. -/
structure Takes (ev : Quarantine.Eviction) (c' : Client) : Prop where
  queue : c'.shared.quarantine = ev.queue
  batch : c'.thread.batch = ev.batch

/-- Entries were recycled, and marks were left alone. -/
structure Recycles (es : List Entry) (c c' : Client) : Prop where
  blocks : c'.shared.heap.blocks = Redzone.recycled es c.shared.heap.blocks
  shadow : c'.shared.heap.shadow = c.shared.heap.shadow

variable {e : Entry}

/-- What waits more is in the hand. -/
theorem holders_cons :
    ({ c.holders hand with waiting := e ::ₘ (c.holders hand).waiting } : Holders) =
      c.holders (e ::ₘ hand) := by
  unfold holders Sanitizer.holders
  simp only [Multiset.cons_add]

/-- What leaves the hand does not wait any more. -/
theorem holders_erase :
    ({ c.holders (e ::ₘ hand) with waiting := (c.holders (e ::ₘ hand)).waiting.erase e } : Holders) =
      c.holders hand := by
  unfold holders Sanitizer.holders
  simp only [Multiset.cons_add, Multiset.erase_cons_head]

/-- After a failure some of what is in the hand may get lost. -/
theorem reaches_lose (hfailing : failing) (hfit : c.Fit failing) (lost : Multiset Entry) :
    Reaches failing marked c (lost + hand) [.lose lost] c hand := by
  refine ⟨rfl, hfit, rfl, rfl, rfl, ?_, fun hsteady => absurd hfailing hsteady.calm,
    fun hcalm => absurd hfailing hcalm, fun _ => id⟩
  refine (Moves.one (.lose (s := c.scene (lost + hand)) hfailing (c.scene hand).idle
    (c.scene hand).waiting lost (fun _ => le_refl _) ?_)).of_eq rfl
  exact (add_assoc _ _ _).symm

/-- Sorting the entries of the queue, the batch and the hand is no move. -/
theorem reaches_sorts {ev : Quarantine.Eviction} {entries : List Entry} (hfit : c.Fit failing)
    (hsorts : ev.Sorts entries)
    (hentries : (entries : Multiset Entry) + hand' =
      hand + ((c.shared.quarantine.queue : Multiset Entry) + (c.thread.batch.entries : Multiset Entry))) :
    Reaches failing marked c hand [] (setQuarantine ev c) (ev.evicted + hand') := by
  have hothers : (setQuarantine ev c).others = c.others := rfl
  have hperm : (ev.evicted : Multiset Entry) + ev.queue.queue + ev.batch.entries = entries := by
    rw [Multiset.coe_add, Multiset.coe_add]
    exact Multiset.coe_eq_coe.mpr hsorts.perm
  -- What the eviction moves between queue, batch and hand stays the same as a whole.
  have hwaiting : hand + ((c.shared.quarantine.queue : Multiset Entry) + batched c.crew) =
      (ev.evicted + hand') + ((ev.queue.queue : Multiset Entry)
        + batched (setQuarantine ev c).crew) := by
    unfold crew
    rw [batched_cons, batched_cons, hothers, ← add_assoc (c.shared.quarantine.queue : Multiset Entry),
      ← add_assoc hand, ← hentries, ← hperm]
    show _ = (ev.evicted : Multiset Entry) + hand' + (ev.queue.queue + (ev.batch.entries + _))
    abel
  have hstill : Still marked c.shared c.crew hand (setQuarantine ev c).shared
      (setQuarantine ev c).crew (ev.evicted + hand') :=
    { config := rfl
      large := rfl
      chunks := rfl
      code := fun _ _ _ _ _ => rfl
      waiting := hwaiting.symm
      ids := .refl _
      owners := rfl
      counters := fun _ _ => rfl }
  refine ⟨rfl, ?_, rfl, rfl, rfl, (Moves.none _).of_eq ?_, hstill.lasts, fun _ => hstill.counted,
    hstill.guards⟩
  · exact
      { hfit with
        queue := hsorts.queue
        cache := by
          intro u hu
          rcases List.mem_cons.mp hu with rfl | hu
          · exact hfit.cache c.thread List.mem_cons_self
          · exact hfit.cache u (List.mem_cons_of_mem _ hu)
        batch := by
          intro u hu
          rcases List.mem_cons.mp hu with rfl | hu
          · exact hsorts.batch
          · exact hfit.batch u (List.mem_cons_of_mem _ hu)
        id_lt := by
          intro u hu
          rcases List.mem_cons.mp hu with rfl | hu
          · exact hfit.id_lt c.thread List.mem_cons_self
          · exact hfit.id_lt u (List.mem_cons_of_mem _ hu) }
  · unfold Sanitizer.scene
    rw [hwaiting]
    rfl

/-- The waiting entries have room in a word. -/
theorem weight_lt (hfit : c.Fit failing) (hsound : Scene.Sound failing marked (c.scene hand))
    (entries : List Entry)
    (hentries : (entries : Multiset Entry) ≤
      hand + ((c.shared.quarantine.queue : Multiset Entry) + (c.thread.batch.entries : Multiset Entry))) :
    Quarantine.weight entries < Word.limit := by
  have hle : (entries : Multiset Entry) ≤ (c.scene hand).waiting := by
    refine hentries.trans ?_
    show _ ≤ hand + (_ + batched (c.thread :: c.others))
    rw [batched_cons]
    gcongr
    exact Multiset.le_add_right _ _
  have hweight := hsound.weight_waiting_le (fun b hb => hfit.heap.past_le hb) hle
  have hend := hfit.heap.layout.end_lt
  omega

/-- Putting an entry from the hand into the quarantine takes out what leaves it. -/
theorem ends_quarantine (hfit : c.Fit failing)
    (hsound : Scene.Sound failing marked (c.scene (e ::ₘ hand))) {no : AllocError → Client → Prop} :
    Act.Ends (quarantine e) c
      (fun evicted c' => ∃ ev, c.shared.quarantine.put c.thread.batch e = .ok ev
        ∧ evicted = ev.evicted ∧ Keeps 0 c c' ∧ Takes ev c' ∧ c'.shared.heap = c.shared.heap
        ∧ Reaches failing marked c (e ::ₘ hand) [] c' (evicted + hand)) no := by
  have hentries : ((c.shared.quarantine.queue ++ c.thread.batch.entries ++ [e] : List Entry) :
      Multiset Entry) + hand = e ::ₘ hand + (c.shared.quarantine.queue + c.thread.batch.entries) := by
    rw [← Multiset.coe_add, ← Multiset.coe_add, Multiset.coe_singleton, ← Multiset.singleton_add]
    abel
  have hroom := weight_lt hfit hsound
    (c.shared.quarantine.queue ++ c.thread.batch.entries ++ [e]) (by
    rw [← hentries]
    exact Multiset.le_add_right _ _)
  obtain ⟨ev, hput, hsorts⟩ := Quarantine.put_spec (hfit.queue)
    (hfit.batch c.thread List.mem_cons_self) hroom
  unfold quarantine
  rw [Act.ends_bind, Act.ends_get, Act.ends_bind, Act.ends_liftM]
  exact ⟨ev, hput, ev, hput, rfl, ⟨rfl, rfl, rfl⟩, ⟨rfl, rfl⟩, rfl,
    reaches_sorts hfit hsorts hentries⟩

/-- Draining the batch takes out what leaves the quarantine. -/
theorem ends_drainBatch (hfit : c.Fit failing)
    (hsound : Scene.Sound failing marked (c.scene hand)) (no : AllocError → Client → Prop) :
    Act.Ends drainBatch c
      (fun evicted c' => ∃ ev, c.shared.quarantine.drain c.thread.batch = .ok ev
        ∧ evicted = ev.evicted ∧ Keeps 0 c c' ∧ c'.thread.batch.entries = []
        ∧ Reaches failing marked c hand [] c' (evicted + hand)) no := by
  have hentries : ((c.shared.quarantine.queue ++ c.thread.batch.entries : List Entry) :
      Multiset Entry) + hand = hand + (c.shared.quarantine.queue + c.thread.batch.entries) := by
    rw [← Multiset.coe_add, add_comm]
  have hroom := weight_lt hfit hsound (c.shared.quarantine.queue ++ c.thread.batch.entries) (by
    rw [← hentries]
    exact Multiset.le_add_right _ _)
  obtain ⟨ev, hdrain, hsorts, hempty⟩ := Quarantine.drain_spec (hfit.queue)
    (hfit.batch c.thread List.mem_cons_self) hroom
  unfold drainBatch
  rw [Act.ends_bind, Act.ends_get, Act.ends_bind, Act.ends_liftM]
  exact ⟨ev, hdrain, ev, hdrain, rfl, ⟨rfl, rfl, rfl⟩, hempty, reaches_sorts hfit hsorts hentries⟩

/-- Entries in the hand are recycled one by one.  The one that fails is not in the quarantine any
    more, either, and what is left in the hand behind it is lost. -/
theorem ends_recycle (es : List Entry) (hfit : c.Fit failing)
    (hsound : Scene.Sound failing marked (c.scene (es + hand))) :
    Act.Ends (recycle es) c
      (fun _ c' => Reaches failing marked c (es + hand) (es.map .evict) c' hand ∧ Keeps 0 c c'
        ∧ SameQuarantine c c' ∧ Recycles es c c')
      fun _ c' => failing ∧ ∃ done rest, es = done ++ rest ∧ done ≠ []
        ∧ SameQuarantine c c' ∧ Keeps 0 c c'
        ∧ Reaches failing marked c (es + hand) (done.map .evict ++ [.lose rest]) c' hand := by
  induction es generalizing c with
  | nil =>
      rw [Multiset.coe_nil, zero_add]
      exact ⟨.refl hfit, ⟨rfl, rfl, rfl⟩, ⟨rfl, rfl⟩, Redzone.recycled_nil.symm, rfl⟩
  | cons e rest ih =>
      have hsplit : ((e :: rest : List Entry) : Multiset Entry) + hand = e ::ₘ (rest + hand) := by
        rw [← Multiset.cons_coe, Multiset.cons_add]
      rw [hsplit] at hsound ⊢
      obtain ⟨b, hb, rfl, -⟩ := hsound.waiting_block e
        (Multiset.mem_add.mpr (.inl (Multiset.mem_cons_self _ _)))
      have hentry : b.entry ∈ (c.holders (b.entry ::ₘ (rest + hand))).waiting :=
        Multiset.mem_add.mpr (.inl (Multiset.mem_add.mpr (.inl (Multiset.mem_cons_self _ _))))
      unfold recycle
      rw [Act.ends_bind, ends_onSession]
      have hsession := hsound
      rw [scene_session] at hsession
      refine ((Redzone.ends_recycle failing marked (session_wf hfit) hb hentry).and_leaves
        (Redzone.leaves_recycle b.entry c.session)).imp_ok ?_ ?_
      · rintro _ t hrecycle ⟨⟨hgoes, hblocks⟩, hshadow⟩
        have hguards := Redzone.guarded_recycle hsession hgoes hshadow
        rw [holders_erase] at hgoes
        refine ends_counts _ _ _ ?_
        have hall := reaches_session hfit hgoes
          (fun hsteady K hK hstart => hK.recycle hsteady hrecycle hstart)
          (fun _ => Deed.counted_evict _) fun _ => hguards
        have hcounted : Keeps 0 c { c.withSession t with
            shared := (c.withSession t).shared.counted .recycledChunks .recycledBytes b.entry.size } :=
          ⟨rfl, rfl, rfl⟩
        -- No entry that is left is one of the block that was recycled.
        have hothers : ∀ e ∈ rest, e.block ≠ b.entry.block := by
          intro e he heq
          have hin : e ∈ (rest : Multiset Entry) + hand := Multiset.mem_add.mpr (.inl he)
          obtain ⟨rfl, -⟩ := hsound.waiting_spec hb
            (Multiset.mem_add.mpr (.inl (Multiset.mem_cons_of_mem hin))) heq
          exact (Multiset.nodup_cons.mp (Multiset.nodup_add.mp hsound.waiting_nodup).1).1 hin
        refine (ih hall.fit (hall.sound hsound)).imp ?_ ?_
        · rintro _ c' ⟨hrest, hkeeps, hsame, hrecycled⟩
          refine ⟨hall.trans hrest, hcounted.trans hkeeps, ⟨hsame.queue, hsame.batch⟩,
            hrecycled.blocks.trans ?_, hrecycled.shadow.trans hshadow⟩
          rw [Redzone.recycled_cons hothers]
          exact congrArg (Redzone.recycled rest) hblocks
        · rintro _ c' ⟨hfailing, done, left, rfl, -, hsame, hkeeps, hrest⟩
          exact ⟨hfailing, b.entry :: done, left, rfl, nofun, ⟨hsame.queue, hsame.batch⟩,
            hcounted.trans hkeeps, hall.trans hrest⟩
      · rintro _ t ⟨⟨harmed, hgoes⟩, hshadow⟩
        have hguards := Redzone.guarded_recycle hsession hgoes hshadow
        rw [holders_erase] at hgoes
        have hfailing : failing := by
          by_contra hnot
          exact harmed (hfit.calm hnot)
        have hreach := reaches_session (m := c.shared.metrics) hfit hgoes
          (fun hsteady => absurd hfailing hsteady.calm) (fun hcalm => absurd hfailing hcalm) fun _ => hguards
        exact ⟨hfailing, [b.entry], rest, rfl, nofun, ⟨rfl, rfl⟩, ⟨rfl, rfl, rfl⟩,
          hreach.trans (reaches_lose hfailing hreach.fit rest)⟩

end Client

end Sanitizer

end GuardedHeap
