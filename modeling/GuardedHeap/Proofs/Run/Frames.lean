import GuardedHeap.Proofs.Run.States
import GuardedHeap.Proofs.Sanitizer.Blind

/-! # Frames of runs — no frame goes uncounted

    A frame that was claimed is given back, collected, claimed still, or
    went away with the fake stack of its thread.  Calls that have nothing to
    do with fake stacks are blind for the balance of frames; those of
    threads on their fake stacks keep it (`Sanitizer.frameBalance`), and only
    the end of a thread puts it up, by the frames that the thread has left
    (`Occurrence.leftFrames`). -/

namespace GuardedHeap

open Act

/-- The number of frames that were claimed still when their thread unregistered. -/
def Occurrence.leftFrames (o : Occurrence) : Nat :=
  match o.event with
  | .call (.unregister id) (.ok _) => ((o.before.fakeStackOf? id).map (·.claimedCount)).getD 0
  | _ => 0

namespace Sanitizer

variable {failing marked : Prop} {s t : Sanitizer} {id : Nat} {ε α : Type}

/-- The fake stacks and the balance of frames. -/
def frames (s : Sanitizer) : List OwnedStack × ZMod Word.limit :=
  (s.fakeStacks, s.frameBalance)

theorem blind_frames : Blind frames := by
  intro s heap metrics log captures exitCode hsame
  have hallocated : metrics.fakeFramesAllocated = s.metrics.fakeFramesAllocated :=
    hsame .fakeFramesAllocated (by decide)
  have hfreed : metrics.fakeFramesFreed = s.metrics.fakeFramesFreed :=
    hsame .fakeFramesFreed (by decide)
  have hcollected : metrics.fakeFramesCollected = s.metrics.fakeFramesCollected :=
    hsame .fakeFramesCollected (by decide)
  unfold frames frameBalance
  rw [hallocated, hfreed, hcollected]
  rfl

theorem blind_frameBalance : Blind frameBalance :=
  fun s heap metrics log captures exitCode hsame =>
    congrArg Prod.snd (blind_frames s heap metrics log captures exitCode hsame)

namespace Client

/-- The thread at work, the fake stacks and the balance of frames. -/
def frames (c : Client) : Nat × List OwnedStack × ZMod Word.limit :=
  (c.thread.id, c.shared.frames)

theorem blind_frames : BlindToQuarantine frames where
  shared c := fun s heap metrics log captures exitCode hsame =>
    congrArg (Prod.mk c.thread.id) (Sanitizer.blind_frames s heap metrics log captures exitCode hsame)
  cache _ _ := rfl
  held _ _ := rfl

end Client

/-- A call of a thread that leaves the frames alone. -/
theorem fixes_asThread_frames {act : Act ε Client α} (h : Fixes Client.frames act) :
    Fixes frames (asThread id act) := by
  intro s
  unfold after asThread
  cases ht : s.thread? id with
  | none => rfl
  | some t =>
      have hfixes := h ⟨t, s⟩
      unfold after at hfixes
      dsimp only
      cases hact : act ⟨t, s⟩ with
      | ok a c =>
          rw [hact] at hfixes
          exact congrArg Prod.snd hfixes
      | error e c =>
          rw [hact] at hfixes
          exact congrArg Prod.snd hfixes

/-- A call has to do with the fake stacks of threads. -/
def OfFrames : Operation → Prop
  | .register | .unregister _ | .allocateFrame .. | .freeFrame .. | .noReturn _ => True
  | _ => False

/-- The other calls leave the fake stacks and the balance of frames alone. -/
theorem fixes_frames {op : Operation} (hop : ¬ OfFrames op) : Fixes frames op.perform := by
  cases op with
  | register => exact absurd trivial hop
  | unregister => exact absurd trivial hop
  | allocateFrame => exact absurd trivial hop
  | freeFrame => exact absurd trivial hop
  | noReturn => exact absurd trivial hop
  | allocate => exact fixes_asThread_frames (Client.blind_frames.fixes_allocate _ _ _ _).mapError
  | calloc => exact fixes_asThread_frames (Client.blind_frames.fixes_calloc _ _).mapError
  | reallocate => exact fixes_asThread_frames (Client.blind_frames.fixes_reallocate _ _)
  | free => exact (fixes_asThread_frames (Client.blind_frames.fixes_free _ _ _)).map
  | poison => exact (blind_frames.fixes_userMark _).mapError.map
  | unpoison => exact (blind_frames.fixes_userMark _).mapError.map
  | classify => exact (blind_frames.fixes_classify _ _ _ _).map
  | setExitCode => exact (blind_frames.fixes_setExitCode _).map
  | reportStats => exact blind_frames.fixes_reportStats.map

/-! ## The fake stacks of threads -/

/-- A fresh fake stack has no claimed frames. -/
theorem leaves_createFakeStack (hfit : s.Fit failing s.threads) (owner registrations : Nat) :
    Leaves (fun t => t.frameBalance = s.frameBalance) (createFakeStack owner)
      { s with registrations } := by
  refine Ends.leaves ?_
  unfold createFakeStack onHeap
  rw [ends_bind, ends_get, ends_bind, ends_mapError, ends_onPart]
  refine (FakeStack.ends_create hfit.heap _).imp ?_ fun _ _ _ => rfl
  rintro f heap ⟨-, -, hcount, -⟩
  rw [ends_bind]
  refine ends_modify.mpr (ends_pure.mpr ?_)
  have hframes : ((s.fakeStacks ++ [({ owner, stack := f } : OwnedStack)]).map
      (·.stack.claimedCount)).sum = s.claimedFrames := by
    rw [List.map_append, List.sum_append, List.map_singleton, List.sum_singleton, hcount]
    rfl
  show s.metrics.fakeFramesAllocated - _ - _
    - ((((s.fakeStacks ++ [({ owner, stack := f } : OwnedStack)]).map (·.stack.claimedCount)).sum : Nat) :
      ZMod Word.limit) = _
  rw [hframes]
  rfl

/-- Whether a thread is registered or not, its fresh fake stack has no claimed frames. -/
theorem leaves_register (hfit : s.Fit failing s.threads) :
    Leaves (fun t => t.frameBalance = s.frameBalance) register s := by
  have henlist : ∀ stack, Fixes frameBalance (enlist s.newcomer stack) := fun stack =>
    (blind_frameBalance.fixes_emit _ _ _).bind fun _ =>
      Fixes.bind (fixes_modify fun _ => rfl) fun _ => fixes_pure
  exact leaves_register_of rfl (leaves_createFakeStack hfit s.registrations (s.registrations + 1))
    fun stack _ hr => (henlist stack).leaves_eq hr

/-- The frames that are claimed in a fake stack go with it. -/
theorem frameBalance_release {owner : Nat} (hnodup : (s.fakeStacks.map (·.owner)).Nodup)
    (hact : releaseFakeStack owner s = .ok () t) :
    t.frameBalance = s.frameBalance + (((s.fakeStackOf? owner).map (·.claimedCount)).getD 0 : Nat) := by
  unfold releaseFakeStack at hact
  obtain ⟨_, _, hget, hact⟩ := bind_eq_ok.mp hact
  cases hget
  cases hstack : s.fakeStackOf? owner with
  | none =>
      rw [hstack] at hact
      obtain ⟨-, rfl⟩ := pure_eq_ok.mp hact
      exact (add_zero _).symm.trans (congrArg _ Nat.cast_zero.symm)
  | some f =>
      rw [hstack] at hact
      obtain ⟨_, u, hset, hact⟩ := bind_eq_ok.mp hact
      obtain rfl := set_eq_ok.mp hset
      have hbalance := (blind_frameBalance.fixes_onHeap f.release).of_ok (mapError_eq_ok.mp hact)
      obtain ⟨o, ho, rfl, rfl⟩ := of_fakeStackOf? hstack
      rw [hbalance]
      generalize hrest : ({ s with fakeStacks := s.fakeStacks.filter (·.owner != o.owner) } : Sanitizer) = r
      have hmetrics : r.metrics = s.metrics := by rw [← hrest]
      have hsum : s.claimedFrames = o.stack.claimedCount + r.claimedFrames := by
        rw [← hrest]
        unfold claimedFrames
        rw [((perm_cons_filter hnodup ho).map _).sum_eq, List.map_cons, List.sum_cons]
      unfold frameBalance
      rw [hmetrics, hsum, Nat.cast_add]
      show _ = _ - (o.stack.claimedCount + _) + (o.stack.claimedCount : ZMod Word.limit)
      ring

/-- The frames that a thread has left go with it. -/
theorem frameBalance_unregister (hfit : s.Fit failing s.threads) {u : Unit}
    (hact : unregister id s = .ok u t) :
    t.frameBalance = s.frameBalance + (((s.fakeStackOf? id).map (·.claimedCount)).getD 0 : Nat) := by
  unfold unregister at hact
  cases hthread : s.thread? id with
  | none =>
      rw [hthread] at hact
      exact nomatch hact
  | some th =>
      obtain ⟨-, hid⟩ := Client.of_thread? hthread
      rw [hthread] at hact
      dsimp only at hact
      generalize hc : (⟨th, { s with threads := s.threads.filter (·.id != id) }⟩ : Client) = c at hact
      have hstart : c.frames = (id, s.frames) := by
        rw [← hc, ← hid]
        rfl
      cases hback : handBack c with
      | error e c' =>
          rw [hback] at hact
          exact nomatch hact
      | ok a c' =>
          rw [hback] at hact
          cases hact
          -- Until the fake stack is released, nothing is done to frames.
          unfold handBack at hback
          obtain ⟨evicted, c₁, hdrain, hback⟩ := bind_eq_ok.mp hback
          obtain ⟨_, c₂, hrecycle, hback⟩ := bind_eq_ok.mp hback
          obtain ⟨_, c₃, hcache, hback⟩ := bind_eq_ok.mp hback
          obtain ⟨_, _, hget, hback⟩ := bind_eq_ok.mp hback
          cases hget
          obtain ⟨_, c₄, hrelease, hemit⟩ := bind_eq_ok.mp hback
          have h₁ := Client.blind_frames.fixes_drainBatch.of_ok (mapError_eq_ok.mp hdrain)
          have h₂ := (Client.blind_frames.fixes_recycle _).of_ok (mapError_eq_ok.mp hrecycle)
          have h₃ := (Client.blind_frames.fixes_onSession _).of_ok (mapError_eq_ok.mp hcache)
          have h₅ := (Client.fixes_onShared fun c => (Client.blind_frames.shared c).fixes_emit _ _ _).of_ok hemit
          have hbefore : c₃.frames = (id, s.frames) := h₃.trans (h₂.trans (h₁.trans hstart))
          obtain ⟨hid₃, hframes⟩ := Prod.mk.inj hbefore
          obtain ⟨hstacks, hbalance⟩ := Prod.mk.inj hframes
          obtain ⟨s₄, hshared, rfl⟩ := onPart_eq_ok.mp hrelease
          have hreleased := frameBalance_release (by rw [hstacks]; exact hfit.owners_nodup) hshared
          have hsame : c₃.shared.fakeStackOf? c₃.thread.id = s.fakeStackOf? id := by
            unfold fakeStackOf?
            rw [hstacks, hid₃]
          have hafter : c'.shared.frameBalance = s₄.frameBalance := congrArg (·.2.2) h₅
          rw [hafter, hreleased, hbalance, hsame]

/-- Only a failure can keep a thread from handing everything back. -/
theorem unregister_returns (hfit : s.Fit failing s.threads)
    (hsound : Scene.Sound failing marked (s.scene s.threads 0)) (hcalm : ¬ failing) :
    EndsOrStops (unregister id) s (fun _ _ => True) fun _ _ => False := by
  cases ht : s.thread? id with
  | none =>
      unfold EndsOrStops unregister
      rw [ht]
      exact trivial
  | some th =>
      exact ((ends_unregister hfit hsound ht).imp (fun _ _ _ => trivial) fun _ _ h => hcalm h.1).orStops

/-! ## Events -/

/-- Every call but the end of a thread keeps the balance of frames. -/
theorem keeps_frameBalance (hfit : s.Fit failing s.threads)
    (hsound : Scene.Sound failing marked (s.scene s.threads 0)) (op : Operation)
    (hop : ∀ id, op ≠ .unregister id) :
    EndsOrStops op.perform s (fun _ t => t.frameBalance = s.frameBalance)
      fun _ t => t.frameBalance = s.frameBalance := by
  by_cases hframes : OfFrames op
  case neg => exact (((fixes_frames hframes).comp (g := Prod.snd)).leaves s).orStops
  cases op with
  | unregister id => exact absurd rfl (hop id)
  | register => exact (leaves_register hfit).orStops
  | allocateFrame id classId size realStack =>
      refine endsOrStops_asThread fun t ht => ?_
      obtain ⟨hclient, hscene⟩ := client_sound hfit hsound ht
      rw [endsOrStops_mapError]
      exact (Client.ends_allocateFrame hclient hscene classId size realStack).imp (fun _ _ h => h.2)
        fun _ _ h => h.2
  | freeFrame id p classId size realStack =>
      unfold Operation.perform
      rw [endsOrStops_map]
      refine endsOrStops_asThread fun t ht => ?_
      obtain ⟨hclient, hscene⟩ := client_sound hfit hsound ht
      rw [endsOrStops_mapError]
      exact ((Client.ends_freeFrame hclient hscene p classId size realStack).imp (fun _ _ h => h.2)
        fun _ _ h => h.2).orStops
  | noReturn id =>
      unfold Operation.perform
      rw [endsOrStops_map]
      refine endsOrStops_asThread fun t ht => ?_
      obtain ⟨hclient, hscene⟩ := client_sound hfit hsound ht
      exact ((Client.ends_noReturn hclient hscene).imp (fun _ _ h => h.2) fun _ _ h => h).orStops
  | _ => exact hframes.elim

/-- As long as nothing fails, an event puts the balance of frames up by the frames that were left. -/
theorem Step.frameBalance {e : Event} (hfit : s.Fit failing s.threads)
    (hsound : Scene.Sound failing marked (s.scene s.threads 0)) (hcalm : ¬ failing) (h : s.Step e t) :
    t.frameBalance = s.frameBalance + (Occurrence.leftFrames ⟨s, e, t⟩ : Nat) := by
  have hsame : ∀ {n : Nat}, n = 0 → t.frameBalance = s.frameBalance →
      t.frameBalance = s.frameBalance + n := by
    rintro _ rfl hbalance
    rw [hbalance, Nat.cast_zero, add_zero]
  cases h with
  | @call op answer t hact =>
      by_cases hop : ∃ id, op = .unregister id
      · obtain ⟨id, rfl⟩ := hop
        have hperform : (Operation.unregister id).perform = (fun _ => 0) <$> unregister id := rfl
        rw [hperform] at hact
        rcases attempt_eq_ok.mp hact with ⟨a, rfl, hdone⟩ | ⟨e, rfl, hdone⟩
        · obtain ⟨u, hreturned, -⟩ := map_eq_ok.mp hdone
          exact frameBalance_unregister hfit hreturned
        · have hreturns : EndsOrStops ((fun _ => 0) <$> unregister id : Act SanitizerError Sanitizer Nat)
              s (fun _ _ => True) fun _ _ => False :=
            endsOrStops_map.mpr (unregister_returns hfit hsound hcalm)
          unfold EndsOrStops at hreturns
          rw [hdone] at hreturns
          exact hreturns.elim
      · have hends : Act.EndsOrStops (Act.attempt op.perform : Act Empty Sanitizer Answer) s
            (fun _ t => t.frameBalance = s.frameBalance) fun _ _ => True :=
          endsOrStops_attempt.mpr (keeps_frameBalance hfit hsound op fun id heq => hop ⟨id, heq⟩)
        refine hsame ?_ (hends.of_ok hact)
        unfold Occurrence.leftFrames
        cases op with
        | unregister id => exact absurd ⟨id, rfl⟩ hop
        | _ => rfl
  | write | tick | readLog | schedule => exact hsame rfl rfl

end Sanitizer

end GuardedHeap
