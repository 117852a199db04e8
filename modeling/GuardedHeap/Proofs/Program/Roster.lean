import GuardedHeap.Proofs.Program.Alarms
import GuardedHeap.Proofs.Run.States
import GuardedHeap.Proofs.Run.Threads

/-! # Rosters — threads that come and go

    A registration adds a thread, whose fake stack is empty, and fails for
    want of memory alone (`Sanitizer.ends_register_ids`); a registered
    thread can always unregister.  Each is a step of a run
    (`Sanitizer.Goes`). -/

namespace GuardedHeap

open Act

/-- A fake stack with frames in range is refused for want of memory alone. -/
theorem FakeStack.ends_create_shortage {h : Heap} (hwf : h.WF) {sizeLog : Nat} (hlo : minSizeLog ≤ sizeLog)
    (hhi : sizeLog ≤ maxSizeLog) :
    Ends (create sizeLog) h (fun f _ => f.claims = ∅) fun e _ => ∃ a, e = .alloc a ∧ a.Shortage := by
  refine (ends_create hwf sizeLog).imp (fun _ _ hf => hf.2.1) fun e t hno => ?_
  obtain ⟨a, rfl, hdeclines⟩ := hno.2 ⟨hlo, hhi⟩
  refine ⟨a, rfl, ?_⟩
  rcases hdeclines.blames with ⟨⟨m, rfl⟩, -⟩ | ⟨hundue | hexhausts, hall⟩
  · trivial
  · have hdue : ¬ Word.limit ≤ Heap.mapSize (totalSize sizeLog) Pages.pageSize := by
      have hle : totalSize sizeLog ≤ totalSize maxSizeLog :=
        Nat.mul_le_mul_left _ (Word.powerOfTwo_le hhi)
      have hround := Word.roundUp_mono (m := Pages.pageSize) (by decide) hle
      have hmap : Heap.mapSize (totalSize maxSizeLog) Pages.pageSize < Word.limit := by decide
      unfold Heap.mapSize at *
      omega
    have hjudged := (hall h.pages).and_endsOrStops (Heap.judges_allocateLarge (h.on h.pages))
    rcases ends_iff.mp hjudged with ⟨_, _, -, hnever, -⟩ | ⟨_, _, -, ⟨rfl, -⟩, hiff⟩
    · exact hnever.elim
    · exact absurd (hiff.mp hundue) hdue
  · exact hexhausts.shortage

/-- A valid configuration asks for fake stacks whose number of frames is in range. -/
theorem Config.fakeStackSizeLog_of_valid {c : Config} (h : c.validate = .ok ()) :
    FakeStack.minSizeLog ≤ c.fakeStackSizeLog ∧ c.fakeStackSizeLog ≤ FakeStack.maxSizeLog := by
  unfold validate at h
  split at h
  · exact checkRanges_eq_ok h ("fake_stack_size_log", c.fakeStackSizeLog, 16, 28) (by simp [ranges])
  · cases h

namespace Sanitizer

variable {ε α : Type} {failing marked : Prop} {s t : Sanitizer} {id : Nat}

/-- A fresh fake stack belongs to the thread that it is made for, and has no claimed frames. -/
theorem ends_createFakeStack_empty (hfit : s.Fit failing s.threads) (owner registrations : Nat) :
    Ends (createFakeStack owner) { s with registrations }
      (fun f t => t.fakeStacks = s.fakeStacks ++ [⟨owner, f⟩] ∧ f.claims = ∅
        ∧ t.threads = s.threads ∧ t.clock = s.clock)
      fun e t => e.Shortage ∧ t.threads = s.threads := by
  obtain ⟨hlo, hhi⟩ := Config.fakeStackSizeLog_of_valid hfit.config
  unfold createFakeStack onHeap
  rw [ends_bind, ends_get, ends_bind, ends_mapError, ends_onPart]
  refine (FakeStack.ends_create_shortage hfit.heap hlo hhi).imp ?_ ?_
  · intro f heap hclaims
    rw [ends_bind]
    exact ends_modify.mpr (ends_pure.mpr ⟨rfl, hclaims, rfl, rfl⟩)
  · rintro _ heap ⟨a, rfl, ha⟩
    exact ⟨ha, rfl⟩

/-- A registration adds a thread, which has claimed no frames, or there is no memory for it. -/
theorem ends_register_ids (hfit : s.Fit failing s.threads) :
    Ends register s
      (fun id t => id = s.registrations ∧ t.ids = s.ids ++ [id]
        ∧ ∀ f, t.fakeStackOf? id = some f → f.claims = ∅)
      fun e t => e.Shortage ∧ t.ids = s.ids := by
  have hfresh : s.fakeStacks.find? (·.owner == s.registrations) = none := by
    refine List.find?_eq_none.mpr fun o ho heq => ?_
    exact Nat.ne_of_lt (hfit.owner_lt o ho) (by simpa using heq)
  have hjoin : ∀ (stack : Option FakeStack) (r : Sanitizer), r.threads = s.threads → r.clock = s.clock →
      (∀ f, r.fakeStackOf? s.registrations = some f → f.claims = ∅) →
      Ends (enlist s.newcomer stack) r
        (fun id t => id = s.registrations ∧ t.ids = s.ids ++ [id]
          ∧ ∀ f, t.fakeStackOf? id = some f → f.claims = ∅)
        fun e t => e.Shortage ∧ t.ids = s.ids := by
    intro stack r hthreads hclock hclaims
    refine (ends_enlist (hclock ▸ hfit.clock) _ stack).imp ?_ fun _ _ hno => hno
    rintro _ t ⟨rfl, ht⟩
    rw [ht]
    refine ⟨rfl, ?_, hclaims⟩
    unfold ids
    rw [hthreads, List.map_append]
    rfl
  refine ends_register_of ?_ (hjoin none _ rfl rfl fun g hg => ?_)
  · refine (ends_createFakeStack_empty hfit _ _).imp ?_ fun _ _ h =>
      ⟨h.1, congrArg (List.map Thread.id) h.2⟩
    rintro f r ⟨hstacks, hclaims, hthreads, hclock⟩
    refine hjoin (some f) r hthreads hclock fun g hg => ?_
    unfold fakeStackOf? at hg
    rw [hstacks, List.find?_append, hfresh, List.find?_cons_of_pos (by simp)] at hg
    obtain rfl := Option.some.inj hg
    exact hclaims
  · unfold fakeStackOf? at hg
    rw [hfresh] at hg
    exact nomatch hg

/-! ## Steps -/

/-- An event that sets up no failure leads to `t`, where the threads with the given ids are still
    registered. -/
structure Goes (s : Sanitizer) (keep : List Nat) (t : Sanitizer) : Prop where
  steps : ∃ e, s.Step e t ∧ ¬ e.Fails
  keeps : ∀ id ∈ keep, id ∈ s.ids → id ∈ t.ids

/-- Whatever a call does unless it is stopped is a step. -/
theorem goes_or_stops (op : Operation) (keep : List Nat)
    (hkeeps : EndsOrStops op.perform s (fun _ t => ∀ id ∈ keep, id ∈ s.ids → id ∈ t.ids)
      fun _ t => ∀ id ∈ keep, id ∈ s.ids → id ∈ t.ids) :
    EndsOrStops op.perform s (fun _ t => s.Goes keep t) fun _ t => s.Goes keep t := by
  unfold EndsOrStops at *
  cases hact : op.perform s with
  | ok a t =>
      rw [hact] at hkeeps
      exact ⟨⟨_, .call (attempt_eq_ok.mpr (.inl ⟨a, rfl, hact⟩)), id⟩, hkeeps⟩
  | error h t =>
      rw [hact] at hkeeps
      cases h with
      | refused e => exact ⟨⟨_, .call (attempt_eq_ok.mpr (.inr ⟨e, rfl, hact⟩)), id⟩, hkeeps⟩
      | stopped => exact trivial

/-- An action that is a call is a step, too, and all threads stay if the call is not about which
    threads there are. -/
theorem goes_quietly {ε α : Type} {op : Operation} (hregister : op ≠ .register)
    (hunregister : ∀ id, op ≠ .unregister id) {act : Act ε Sanitizer α} {wrap : ε → SanitizerError}
    {g : α → Nat} (hop : op.perform = g <$> Act.mapError wrap act) (keep : List Nat) :
    EndsOrStops act s (fun _ t => s.Goes keep t) fun _ t => s.Goes keep t := by
  have hgoes := goes_or_stops (s := s) op keep <|
    ((fixes_ids hregister hunregister).leaves s).orStops.imp
      (fun _ t ht id _ hid => ht.symm ▸ hid) fun _ t ht id _ hid => ht.symm ▸ hid
  rwa [hop, endsOrStops_map, endsOrStops_mapError] at hgoes

/-- What a run goes on with is a run, also after the log was read. -/
theorem Goes.runs {past : List Occurrence} {keep : List Nat} (hrun : Run False True past s)
    (hgoes : s.Goes keep t) (log : EventLog) : ∃ past', Run False True past' { t with log } := by
  obtain ⟨e, hstep, hfails⟩ := hgoes.steps
  exact ⟨_, (hrun.snoc hstep (fun he => absurd he hfails) fun _ => trivial).snoc (.readLog log)
    False.elim False.elim⟩

/-- It is the same whether errors are renamed by the thread or behind it. -/
theorem asThread_mapError {ε ε' α : Type} (id : Nat) (f : ε → ε') (act : Act ε Client α) :
    asThread id (Act.mapError f act) = Act.mapError f (asThread id act) := by
  funext s
  unfold asThread Act.mapError
  dsimp only
  cases s.thread? id with
  | none => rfl
  | some u =>
      dsimp only
      cases act ⟨u, s⟩ with
      | ok a c => rfl
      | error h c => cases h <;> rfl

theorem goes_allocate (id size alignment : Nat) (api : Api) (stack : StackId) (keep : List Nat) :
    EndsOrStops (asThread id (Client.allocate size alignment api stack)) s (fun _ t => s.Goes keep t)
      fun _ t => s.Goes keep t := by
  have hop : (Operation.allocate id size alignment api stack).perform
      = (fun p => p) <$> Act.mapError .alloc (asThread id (Client.allocate size alignment api stack)) :=
    (asThread_mapError id SanitizerError.alloc _).trans (id_map _).symm
  have hregister : Operation.allocate id size alignment api stack ≠ .register := nofun
  exact goes_quietly hregister nofun hop keep

theorem goes_free (id p : Nat) (api : Api) (stack : StackId) (keep : List Nat) :
    EndsOrStops (asThread id (Client.free p api stack)) s (fun _ t => s.Goes keep t)
      fun _ t => s.Goes keep t := by
  have hop : (Operation.free id p api stack).perform
      = (fun _ => 0) <$> Act.mapError (fun e => e) (asThread id (Client.free p api stack)) :=
    congrArg (fun act => (fun _ => 0) <$> act) (mapError_id _).symm
  have hregister : Operation.free id p api stack ≠ .register := nofun
  exact goes_quietly hregister nofun hop keep

/-- All threads stay when one registers. -/
theorem register_goes {past : List Occurrence} (hrun : Run False True past s) (keep : List Nat) :
    EndsOrStops register s (fun _ t => s.Goes keep t) fun _ t => s.Goes keep t := by
  refine goes_or_stops .register keep ((ends_register_ids hrun.fit).orStops.imp ?_ ?_)
  · exact fun id t h i _ hi => h.2.1 ▸ List.mem_append_left _ hi
  · exact fun _ t h i _ hi => h.2 ▸ hi

/-- Registering changes no chunks, and gives a number that no thread has. -/
theorem finishes_register {past : List Occurrence} (hrun : Run False True past s) :
    Finishes register s
      (fun id t => id ∉ s.ids ∧ id ∈ t.ids ∧ t.heap.chunks = s.heap.chunks
        ∧ ∀ f, t.fakeStackOf? id = some f → f.claims = ∅)
      fun e t => ∃ e', e = .refused e' ∧ register s = .error e t ∧ e'.Shortage := by
  have hids := ends_register_ids hrun.fit
  have hcomes : Ends Sanitizer.register s (fun id t => id = s.registrations ∧ Comes False True s [] t)
      fun _ t => Comes False True s [] t :=
    ends_register hrun.fit
  refine (hids.and_endsOrStops hcomes.orStops).finishes.imp_eq ?_ ?_
  · rintro id t - ⟨⟨rfl, hjoined, hclaims⟩, -, hcomes⟩
    refine ⟨fun hin => ?_, ?_, hrun.sound.chunks_moves hcomes.moves, hclaims⟩
    · obtain ⟨u, hu, hid⟩ := List.mem_map.mp hin
      exact Nat.ne_of_lt (hrun.fit.id_lt u hu) hid
    · rw [hjoined]
      exact List.mem_append_right _ List.mem_cons_self
  · rintro _ t hact ⟨e, rfl, ⟨he, -⟩, -⟩
    exact ⟨e, rfl, hact, he⟩

/-- A registered thread can always unregister. -/
theorem ends_unregister_registered {past : List Occurrence} (hrun : Run False True past s) {id : Nat} (hid : id ∈ s.ids) :
    Ends (unregister id) s (fun _ _ => True) fun _ _ => False := by
  obtain ⟨u, hu⟩ := mem_ids.mp hid
  exact (ends_unregister hrun.fit hrun.sound hu).imp (fun _ _ _ => trivial) fun _ _ h => h.1

/-- The other threads stay when one unregisters. -/
theorem unregister_goes {past : List Occurrence} (hrun : Run False True past s) {id : Nat}
    (hid : id ∈ s.ids) {keep : List Nat} (hkeep : id ∉ keep) :
    EndsOrStops (unregister id) s (fun _ t => s.Goes keep t) fun _ t => s.Goes keep t := by
  have hkeeps : EndsOrStops (unregister id) s (fun _ t => ∀ i ∈ keep, i ∈ s.ids → i ∈ t.ids)
      fun _ t => ∀ i ∈ keep, i ∈ s.ids → i ∈ t.ids := by
    have hreturns := (ends_unregister_registered hrun hid).orStops
    unfold EndsOrStops at *
    cases hact : unregister id s with
    | ok u t =>
        show ∀ i ∈ keep, i ∈ s.ids → i ∈ t.ids
        rw [leaves_unregister_ids.of_ok hact]
        exact fun i hi hin => List.mem_filter.mpr ⟨hin, bne_iff_ne.mpr (ne_of_mem_of_not_mem hi hkeep)⟩
    | error e t =>
        rw [hact] at hreturns
        cases e with
        | refused e => exact hreturns.elim
        | stopped => exact trivial
  have hgoes : EndsOrStops ((fun _ => 0) <$> unregister id : Act SanitizerError Sanitizer Nat) s
      (fun _ t => s.Goes keep t) fun _ t => s.Goes keep t :=
    goes_or_stops (.unregister id) keep (endsOrStops_map.mpr hkeeps)
  rwa [endsOrStops_map] at hgoes

/-! ## The code to exit with -/

/-- The code that the process of a thread exits with. -/
def Client.exitCode (c : Client) : Int :=
  c.shared.exitCode

theorem fixes_exitCode_emit (level : EventLog.Level) (event : String) (more : EventLog.Entry → EventLog.Entry) :
    Fixes (·.exitCode) (emit level event more : Act ε Sanitizer Unit) :=
  fixes_get.bind fun _ => fixes_orStop.bind fun _ => fixes_modify fun _ => rfl

theorem fixes_exitCode_onShared {act : Act ε Sanitizer α} (h : Fixes (·.exitCode) act) :
    Fixes Client.exitCode (Client.onShared act) :=
  h.onPart fun _ _ hs => hs

theorem fixes_exitCode_onSession (act : Act ε Heap.Session α) : Fixes Client.exitCode (Client.onSession act) :=
  fixes_onPart fun _ _ => rfl

theorem fixes_exitCode_drainBatch : Fixes Client.exitCode Client.drainBatch := by
  refine fixes_get_bind fun c => ?_
  cases c.shared.quarantine.drain c.thread.batch with
  | error o => rfl
  | ok ev => rfl

theorem fixes_exitCode_recycle (es : List Quarantine.Entry) : Fixes Client.exitCode (Client.recycle es) := by
  have hcounts : ∀ k n, Fixes Client.exitCode (Client.onShared (countBy k n) : Act AllocError Client Unit) :=
    fun _ _ => fixes_exitCode_onShared (fixes_modify fun _ => rfl)
  induction es with
  | nil => exact fixes_pure
  | cons e rest ih =>
      exact (fixes_exitCode_onSession _).bind fun _ => (hcounts .recycledChunks 1).bind fun _ =>
        (hcounts .recycledBytes e.size).bind fun _ => ih

theorem fixes_exitCode_releaseFakeStack (owner : Nat) : Fixes (·.exitCode) (releaseFakeStack owner) := by
  refine fixes_get_bind fun s => ?_
  cases s.fakeStackOf? owner with
  | none => rfl
  | some stack =>
      have hback : Fixes (·.exitCode) (Act.mapError SanitizerError.fakeStack (onHeap stack.release)) :=
        Fixes.mapError (fixes_onPart fun _ _ => rfl)
      exact hback { s with fakeStacks := s.fakeStacks.filter (·.owner != owner) }

/-- A thread that ends does not change it. -/
theorem fixes_exitCode_handBack : Fixes Client.exitCode handBack :=
  fixes_exitCode_drainBatch.mapError.bind fun ev => (fixes_exitCode_recycle ev).mapError.bind fun _ =>
    (fixes_exitCode_onSession _).mapError.bind fun _ => fixes_get.bind fun _ =>
      (fixes_exitCode_onShared (fixes_exitCode_releaseFakeStack _)).bind fun _ =>
        fixes_exitCode_onShared (fixes_exitCode_emit _ _ _)

theorem leaves_unregister_exitCode (id : Nat) : Leaves (fun t => t.exitCode = s.exitCode) (unregister id) s :=
  leaves_unregister (fun _ => rfl) fun _ _ => fixes_exitCode_handBack.leaves_eq rfl

end Sanitizer

end GuardedHeap
