import GuardedHeap.Proofs.Heap.Requests
import GuardedHeap.Proofs.Run.Refusals

/-! # Alarms — which calls must not be carried out

    Whether a call is wrong depends on the options, on the chunks that
    there are, and on the frames that the caller has claimed (`Outlook`).
    A call that is answered is right, and one that is refused is refused
    with a fatal error if and only if it is wrong, unless there was no
    memory for it (`Sanitizer.Verdict`). -/

namespace GuardedHeap

open Heap (Session)

/-! ## Wrong calls -/

/-- What decides about a call. -/
@[ext]
structure Outlook where
  options : RedzoneOptions
  /-- The chunks that a user has, or that wait in the quarantine. -/
  chunks : Set Block
  /-- Where the frames of each class begin that the caller has claimed. -/
  claimed : Nat → Set Nat

namespace Outlook

/-- A free at `p` ends the process: no chunk begins there, or the options do not let it pass. -/
def WrongFree (v : Outlook) (p : Nat) (api : Api) : Prop :=
  p ≠ 0 ∧ ((∀ b ∈ v.chunks, b.record.userBegin ≠ p)
    ∨ v.options.haltOnFreeError = true ∧ ∃ b ∈ v.chunks, b.record.userBegin = p
      ∧ (b.record.state = .quarantined
        ∨ b.record.state = .allocated ∧ v.options.allocDeallocMismatch = true ∧ b.record.api ≠ api))

/-- A user has the chunk that begins at `p`. -/
def Live (v : Outlook) (p : Nat) : Prop :=
  ∃ b ∈ v.chunks, b.record.userBegin = p ∧ b.record.state = .allocated

end Outlook

/-- There are frames of the class, and they are large enough. -/
def FakeStack.Fits (classId size : Nat) : Prop :=
  classId < classCount ∧ size ≤ frameSize classId

/-- The call ends the process. -/
def Operation.Alarms (v : Outlook) : Operation → Prop
  | allocate _ size alignment _ _ =>
    Word.isPowerOfTwo alignment = false ∨ v.options.Overflows size alignment
  | calloc _ times size =>
    Word.limit ≤ times * size ∨ v.options.Overflows (times * size) Shadow.granule
  | reallocate _ p size =>
    v.WrongFree p .malloc
      ∨ v.options.Overflows size Shadow.granule ∧ (p = 0 ∨ size ≠ 0 ∧ v.Live p)
  | free _ p api _ => v.WrongFree p api
  | allocateFrame _ classId size _ => ¬ FakeStack.Fits classId size
  | freeFrame _ p classId size realStack =>
    p ≠ realStack ∧ (¬ FakeStack.Fits classId size ∨ p ∉ v.claimed classId)
  | _ => False

/-- The call is one that may be wrong. -/
def Operation.Works : Operation → Prop
  | allocate .. | calloc .. | reallocate .. | free .. | allocateFrame .. | freeFrame .. => True
  | _ => False

/-! ## No memory -/

/-- There is no memory: the heap has no room left, or a call of the operating system failed. -/
def AllocError.Shortage : AllocError → Prop
  | regionExhausted .. | secondaryExhausted _ | map _ | shadow (.map _) => True
  | _ => False

/-- There is no memory for a call. -/
def SanitizerError.Shortage : SanitizerError → Prop
  | alloc e | fakeStack (.alloc e) => e.Shortage
  | _ => False

theorem AllocError.Exhausts.shortage {e : AllocError} (h : e.Exhausts) : e.Shortage := by
  cases e with
  | regionExhausted => trivial
  | secondaryExhausted => trivial
  | _ => exact h.elim

namespace Fetch

/-- The chunk is never granted. -/
def Faulty (o : RedzoneOptions) : Fetch → Prop
  | chunk size alignment _ _ => Word.isPowerOfTwo alignment = false ∨ o.Overflows size alignment
  | zeroed times size => Word.limit ≤ times * size ∨ o.Overflows (times * size) Shadow.granule

/-- A session refuses a faulty request, and any other one for want of memory. -/
theorem ends_judged {o : RedzoneOptions} {s : Session} (ho : o.Valid) (hwf : s.WF)
    {failing marked : Prop} {holders : Holders}
    (hsound : Scene.Sound failing marked (s.scene holders)) (hcoarse : s.heap.classes.Coarse)
    (hcalm : s.heap.pages.armed = none) (f : Fetch) (origin : Origin) :
    Act.Ends (f.act o origin) s (fun _ _ => ¬ f.Faulty o)
      fun e _ => e.Shortage ∨ f.Faulty o := by
  have hjudges : Heap.Judges (f.act o origin) s (f.Faulty o) := by
    cases f with
    | chunk size alignment api stack => exact Redzone.judges_allocate ho hcoarse size alignment api origin
    | zeroed times size => exact Redzone.judges_allocateZeroed ho hcoarse times size origin
  refine ((f.ends_act ho hwf hsound origin).and_endsOrStops hjudges).imp (fun _ _ h => h.2) ?_
  rintro e t ⟨⟨-, ⟨-, harmed⟩ | ⟨hreason, -⟩⟩, hiff⟩
  · exact absurd hcalm harmed
  · exact hreason.symm.imp AllocError.Exhausts.shortage hiff.mp

end Fetch

/-- What is known of the answer alone carries over to an action that answers the same. -/
theorem Act.ends_of_answer {ε σ τ α : Type} {act : Act ε σ α} {act' : Act ε τ α} {s : σ} {s' : τ}
    {ok : α → Prop} {no : ε → Prop} (heq : act'.answer s' = act.answer s)
    (h : Act.Ends act s (fun a _ => ok a) fun e _ => no e) :
    Act.Ends act' s' (fun a _ => ok a) fun e _ => no e := by
  unfold Act.answer at heq
  unfold Act.Ends at *
  cases hact : act s with
  | ok a t =>
      rw [hact] at h heq
      cases hact' : act' s' with
      | ok a' t' => rw [hact'] at heq; cases heq; exact h
      | error e' t' => rw [hact'] at heq; cases heq
  | error e t =>
      rw [hact] at h heq
      cases hact' : act' s' with
      | ok a' t' => rw [hact'] at heq; cases heq
      | error e' t' =>
          rw [hact'] at heq
          cases heq
          cases e <;> exact h

theorem Config.coarse_sizeClasses (c : Config) : c.sizeClasses.Coarse := by
  unfold sizeClasses
  split
  · exact SizeClasses.coarse_compact
  · exact SizeClasses.coarse_default

/-- A valid configuration has redzones of at most 2048 bytes, so that no chunk that is far from the size of
    the address space overflows. -/
theorem Config.not_overflows {c : Config} (h : c.validate = .ok ()) {size : Nat} (hsize : size + 16384 < Word.limit) :
    ¬ c.redzoneOptions.Overflows size Shadow.granule := by
  have hredzone : c.redzone ≤ 2048 := by
    unfold validate at h
    split at h
    · rename_i hrange
      exact hrange.2.2
    · exact nomatch h
  have hlimit : size + 16384 < 18446744073709551616 := hsize
  unfold RedzoneOptions.Overflows RedzoneOptions.mapSize Heap.mapSize Word.roundUp
  show ¬ 18446744073709551616 ≤ _
  simp only [Shadow.granule, Pages.pageSize, max_self]
  have hmax : max c.redzoneOptions.redzone 8 ≤ 2048 := max_le hredzone (by decide)
  have hred : c.redzoneOptions.redzone ≤ 2048 := hredzone
  norm_num
  omega

namespace Sanitizer

/-- The outlook of a thread. -/
def outlook (s : Sanitizer) (id : Nat) : Outlook where
  options := s.options
  chunks := s.heap.chunks
  claimed classId := {a | ∃ f, s.fakeStackOf? id = some f ∧ a ∈ f.claimedAt classId}

/-- The call asks for a frame when the number of frames that its thread has ever had collected may
    leave the word. -/
def Wraps (s : Sanitizer) : Operation → Prop
  | .allocateFrame id classId size _ =>
    FakeStack.Fits classId size
      ∧ ∃ f, s.fakeStackOf? id = some f ∧ Word.limit ≤ f.collected + f.claimedCount + 1
  | _ => False

/-! ## Threads at work -/

namespace Client

variable {c : Client} {marked : Prop}

/-- A thread is refused a faulty request, and any other one for want of memory. -/
theorem fetch_judged (hfit : c.Fit False) (hsound : Scene.Sound False marked (c.scene 0)) (f : Fetch) :
    Act.Ends (fetch f) c (fun _ _ => ¬ f.Faulty c.options)
      fun e _ => e.Shortage ∨ f.Faulty c.options := by
  rw [scene_session] at hsound
  refine Act.ends_of_answer (answer_fetch c f) ?_
  refine f.ends_judged (Config.valid_redzoneOptions hfit.config) (session_wf hfit) hsound ?_
    (hfit.calm not_false) _
  show c.shared.heap.classes.Coarse
  rw [hfit.classes]
  exact Config.coarse_sizeClasses _

/-- The outlook of a thread at work. -/
abbrev outlook (c : Client) : Outlook :=
  c.shared.outlook c.thread.id

/-- What makes a free wrong ends the process, unless the options let it pass. -/
theorem isFatal_iff {p : Nat} (hp : p ≠ 0) {api : Api}
    {w : FreeError} (h : Redzone.Wrong c.options (c.scene 0).chunks p api c.thread.tid w) :
    c.shared.isFatal (.free w) = true ↔ c.outlook.WrongFree p api := by
  have hhalt : c.options.haltOnFreeError = c.shared.config.haltOnFreeError := rfl
  cases h with
  | doubleFree b hb huser hstate =>
      show c.shared.config.haltOnFreeError = true ↔ _
      refine ⟨fun h => ⟨hp, .inr ⟨h, b, hb, huser, .inl hstate⟩⟩, ?_⟩
      rintro ⟨-, hnone | ⟨h, -⟩⟩
      · exact absurd huser (hnone b hb)
      · exact h
  | mismatch b hb huser hstate hmismatch =>
      show c.shared.config.haltOnFreeError = true ↔ _
      exact iff_of_true hmismatch.2.2
        ⟨hp, .inr ⟨hmismatch.2.2, b, hb, huser, .inr ⟨hstate, hmismatch.2.1, hmismatch.1⟩⟩⟩
  | invalidFree hnone => exact iff_of_true rfl ⟨hp, .inl hnone⟩

/-- A wrong free of a chunk that a user has is one that the options do not let pass. -/
theorem isFatal_of_live (hsound : Scene.Sound False marked (c.scene 0)) {p : Nat} {api : Api}
    {w : FreeError} (h : Redzone.Wrong c.options (c.scene 0).chunks p api c.thread.tid w)
    (hlive : c.outlook.Live p) : c.shared.isFatal (.free w) = true := by
  obtain ⟨b, hb, huser, hstate⟩ := hlive
  cases h with
  | doubleFree b' hb' huser' hstate' =>
      obtain rfl := hsound.chunk_unique hb' hb (huser'.trans huser.symm)
      rw [hstate] at hstate'
      cases hstate'
  | mismatch b' hb' huser' hstate' hmismatch => exact hmismatch.2.2
  | invalidFree hnone => rfl

/-- A chunk that may be freed is no wrong one. -/
theorem not_wrongFree (hsound : Scene.Sound False marked (c.scene 0)) {p : Nat} {api : Api} {b : Block}
    (hb : b ∈ (c.scene 0).chunks) (huser : b.record.userBegin = p)
    (hstate : b.record.state = .allocated) (hmismatch : ¬ Redzone.Mismatch c.options b.record api) :
    ¬ c.outlook.WrongFree p api := by
  rintro ⟨-, hnone | ⟨hhalt, b', hb', huser', hwrong⟩⟩
  · exact hnone b hb huser
  · obtain rfl := hsound.chunk_unique hb' hb (huser'.trans huser.symm)
    rcases hwrong with hquarantined | ⟨-, hcheck, hapi⟩
    · rw [hstate] at hquarantined
      cases hquarantined
    · exact hmismatch ⟨hapi, hcheck, hhalt⟩

/-- A free that is carried out is right, and one that is refused is fatal if it is wrong. -/
theorem free_judged (hfit : c.Fit False) (hsound : Scene.Sound False marked (c.scene 0)) (p : Nat)
    (api : Api) (stack : StackId) :
    Act.Ends (free p api stack) c (fun _ _ => ¬ c.outlook.WrongFree p api)
      fun e _ => c.shared.isFatal e = true ↔ c.outlook.WrongFree p api := by
  refine (ends_free hfit hsound p api stack).imp ?_ ?_
  · rintro _ c' ⟨-, ⟨rfl, -, -⟩ | ⟨-, b, hb, huser, hstate, hmismatch, -⟩⟩
    · exact fun h => h.1 rfl
    · exact not_wrongFree hsound hb huser hstate hmismatch
  · rintro e c' (⟨hp, ⟨w, rfl, hwrong, -⟩, -⟩ | ⟨-, -, hfailing, -⟩)
    · exact isFatal_iff hp hwrong
    · exact hfailing.elim

/-- A change of a size that is carried out is right, and one that is refused is fatal if it is wrong,
    unless there was no memory. -/
theorem reallocate_judged (hfit : c.Fit False) (hsound : Scene.Sound False marked (c.scene 0)) (id p size : Nat) :
    Act.Ends (reallocate p size) c
      (fun _ _ => ¬ (Operation.reallocate id p size).Alarms c.outlook)
      fun e _ => e.Shortage
        ∨ (c.shared.isFatal e = true ↔ (Operation.reallocate id p size).Alarms c.outlook) := by
  -- Fetching the new chunk is what an allocation of its size does.
  have hfetch : Act.Ends (allocate size Shadow.granule .malloc 0) c
      (fun _ _ => ¬ c.outlook.options.Overflows size Shadow.granule)
      fun e _ => e.Shortage ∨ c.outlook.options.Overflows size Shadow.granule := by
    refine (fetch_judged hfit hsound (.chunk size Shadow.granule .malloc 0)).imp ?_ ?_
    · exact fun _ _ h hoverflows => h (.inr hoverflows)
    · exact fun _ _ h => h.imp_right (·.resolve_left (by decide))
  unfold reallocate
  by_cases hzero : p = 0
  · subst hzero
    have hnot : ¬ c.outlook.WrongFree 0 .malloc := fun h => h.1 rfl
    rw [if_pos rfl, Act.ends_mapError]
    refine hfetch.imp (fun _ _ h => ?_) fun e _ h => h.imp_right fun h => ?_
    · rintro (hwrong | ⟨hoverflows, -⟩)
      · exact hnot hwrong
      · exact h hoverflows
    · exact iff_of_true rfl (.inr ⟨h, .inl rfl⟩)
  rw [if_neg hzero]
  by_cases hsize : size = 0
  · have hiff : (Operation.reallocate id p size).Alarms c.outlook ↔ c.outlook.WrongFree p .malloc :=
      or_iff_left fun h => h.2.elim hzero fun h => h.1 hsize
    rw [if_pos hsize, hiff, Act.ends_bind]
    exact (free_judged hfit hsound p .malloc 0).imp (fun _ _ h => h) fun _ _ h => .inr h
  · rw [if_neg hsize]
    -- The old chunk is looked at first, then the new one is fetched.
    refine (ends_move hfit hsound hzero hsize).imp ?_ ?_
    · rintro _ c' ⟨⟨-, -, b, hb, huser, hstate, hmismatch, -⟩, user, c'', hact⟩
      rintro (hwrong | ⟨hoverflows, -⟩)
      · exact not_wrongFree hsound hb huser hstate hmismatch hwrong
      · exact hfetch.of_ok hact hoverflows
    · rintro e c' (⟨-, hstays⟩ | ⟨hfailing, -⟩)
      case inr => exact hfailing.elim
      cases hstays with
      | wrong hwrong =>
          have hfatal := isFatal_iff hzero hwrong
          refine .inr ⟨fun h => .inl (hfatal.mp h), ?_⟩
          rintro (h | ⟨-, h | ⟨-, hlive⟩⟩)
          · exact hfatal.mpr h
          · exact absurd h hzero
          · exact isFatal_of_live hsound hwrong hlive
      | unfetched hb huser hstate hmismatch hrefused =>
          refine (hfetch.of_refused hrefused).imp_right fun hoverflows => ?_
          exact iff_of_true rfl (.inr ⟨hoverflows, .inr ⟨hsize, _, hb, huser, hstate⟩⟩)

/-! ## Frames -/

/-- A frame that fits passes the check, and no other one. -/
theorem checkFrame_cases (classId size : Nat) :
    checkFrame classId size = .ok () ∧ FakeStack.Fits classId size
      ∨ (∃ e, checkFrame classId size = .error e) ∧ ¬ FakeStack.Fits classId size := by
  unfold checkFrame FakeStack.Fits
  by_cases hclass : classId ≥ FakeStack.classCount
  · rw [if_pos hclass]
    exact .inr ⟨⟨_, rfl⟩, fun h => absurd h.1 (Nat.not_lt.mpr hclass)⟩
  rw [if_neg hclass]
  by_cases hsize : size > FakeStack.frameSize classId
  · rw [if_pos hsize]
    exact .inr ⟨⟨_, rfl⟩, fun h => absurd h.2 (Nat.not_le.mpr hsize)⟩
  · rw [if_neg hsize]
    exact .inl ⟨rfl, Nat.not_le.mp hclass, Nat.not_lt.mp hsize⟩

/-- What a fake stack with free frames or without them answered is counted and logged. -/
theorem settleFrame_returns {s : Sanitizer} (hclock : s.clock.isSome = true) {t : Thread}
    {f : FakeStack} (hcollected : f.collected ≤ s.collectedOf t.id) (classId size realStack : Nat)
    {result : Except FakeStackError Nat} (hresult : ∀ e, result = .error e → e = .exhausted classId) :
    Act.Ends (settleFrame t f classId size realStack result) s (fun _ _ => True) fun _ _ => False := by
  unfold settleFrame
  rw [Act.ends_bind, Act.ends_get, Act.ends_bind, Act.ends_liftM]
  refine ⟨_, Word.sub_eq_ok.mpr ⟨hcollected, rfl⟩, ?_⟩
  rw [Act.ends_bind]
  refine (ends_countBy (by decide) _).imp (fun _ u hu => ?_) fun _ _ h => h
  cases result with
  | ok frame => exact trivial
  | error e =>
      obtain rfl := hresult e rfl
      dsimp only
      rw [Act.ends_bind]
      refine (ends_count (by decide)).imp (fun _ v hv => ?_) fun _ _ h => h
      have hclock' : v.clock.isSome = true := by rwa [hv.clock, hu.clock]
      rw [Act.ends_bind]
      exact (ends_emit_eq hclock' _ _ _).imp (fun _ _ _ => trivial) fun _ _ h => h

/-- If the count does not stop it, what a fake stack answered is counted and logged. -/
theorem settleFrame_orStops {s : Sanitizer} (hclock : s.clock.isSome = true) {t : Thread}
    {f : FakeStack} (classId size realStack : Nat) {result : Except FakeStackError Nat}
    (hresult : ∀ e, result = .error e → e = .exhausted classId) :
    Act.EndsOrStops (settleFrame t f classId size realStack result) s (fun _ _ => True)
      fun _ _ => False := by
  by_cases hcollected : f.collected ≤ s.collectedOf t.id
  · exact (settleFrame_returns hclock hcollected classId size realStack hresult).orStops
  · unfold settleFrame
    rw [Act.endsOrStops_bind, Act.endsOrStops_get, Act.endsOrStops_bind, Act.endsOrStops_liftM]
    exact fun _ h => absurd (Word.sub_eq_ok.mp h).1 hcollected

/-- The fake stack has a frame or is exhausted, and what it has collected is counted in a word. -/
theorem ends_attemptFrame (hfit : c.Fit False) (hsound : Scene.Sound False marked (c.scene 0))
    {f : FakeStack} (hf : c.shared.fakeStackOf? c.thread.id = some f) {classId : Nat}
    (hclass : classId < FakeStack.classCount) (realStack : Nat) :
    Act.Ends (Act.attempt (onFakeStack c.thread.id f (FakeStack.View.allocate classId realStack)) :
        Act FakeStackError Sanitizer (Except FakeStackError Nat)) c.shared
      (fun result s => (∀ e, result = .error e → e = .exhausted classId) ∧ s.clock.isSome = true
        ∧ (f.collected + f.claimedCount + 1 < Word.limit → f.collected ≤ s.collectedOf c.thread.id))
      fun _ _ => False := by
  obtain ⟨o, ho, howner, hstack⟩ := of_fakeStackOf? hf
  rw [Act.ends_attempt]
  -- Whatever was collected, the number of collected frames has not gone down.
  have hnext : ∀ {claimed n : Nat} {w : FakeStack.View}, claimed ≤ 1 →
      FakeStack.View.Settles claimed n n ⟨f, c.shared.heap.shadow⟩ w →
      f.collected + f.claimedCount + 1 < Word.limit →
      f.collected ≤ (setFakeStack c.thread.id w.stack
        { c.shared with heap := { c.shared.heap with shadow := w.shadow } }).collectedOf
          c.thread.id := by
    intro claimed n w hclaimed hw hroom
    have hcount := hw.count
    change w.stack.claimedCount + n = f.claimedCount + claimed at hcount
    have htotal : w.stack.collected = f.collected + n := hw.total (by
      show f.collected + n < _
      omega)
    have hset := fakeStackOf?_setFakeStack
      (s := { c.shared with heap := { c.shared.heap with shadow := w.shadow } }) ho w.stack
    rw [howner] at hset
    unfold collectedOf
    rw [hset]
    show f.collected ≤ w.stack.collected
    omega
  refine ends_onFakeStack hfit hsound hf fun v hv heq => ?_
  subst heq
  refine (FakeStack.View.ends_allocate hv realStack).imp ?_ ?_
  · exact fun frame w ⟨n, hw⟩ => ⟨nofun, hfit.clock, hnext (Nat.le_refl 1) hw⟩
  · rintro e w ⟨hexhausted, n, hw⟩
    refine ⟨?_, hfit.clock, hnext (Nat.zero_le 1) hw⟩
    rintro _ ⟨⟩
    exact hexhausted hclass

/-- A frame is claimed or served from the real stack if it fits, and refused otherwise. -/
theorem allocateFrame_judged (hfit : c.Fit False) (hsound : Scene.Sound False marked (c.scene 0))
    {classId size realStack : Nat}
    (hwraps : ¬ c.shared.Wraps (.allocateFrame c.thread.id classId size realStack)) :
    Act.Ends (allocateFrame classId size realStack) c (fun _ _ => FakeStack.Fits classId size)
      fun _ _ => ¬ FakeStack.Fits classId size := by
  unfold allocateFrame
  rw [Act.ends_bind, Act.ends_ofExcept]
  rcases checkFrame_cases classId size with ⟨hcheck, hfits⟩ | ⟨⟨e, hcheck⟩, hfits⟩
  case inr =>
    rw [hcheck]
    exact ⟨nofun, fun _ _ => hfits⟩
  rw [hcheck]
  refine ⟨fun _ _ => ?_, nofun⟩
  rw [Act.ends_bind, Act.ends_get, ends_onShared, Act.ends_bind, Act.ends_get]
  cases hf : c.shared.fakeStackOf? c.thread.id with
  | none => exact hfits
  | some f =>
      have hroom : f.collected + f.claimedCount + 1 < Word.limit := by
        by_contra hnot
        exact hwraps ⟨hfits, f, hf, Nat.not_lt.mp hnot⟩
      dsimp only
      rw [Act.ends_bind]
      refine (ends_attemptFrame hfit hsound hf hfits.1 realStack).imp ?_ fun _ _ h => h.elim
      rintro result s ⟨hresult, hclock, hcollected⟩
      exact (settleFrame_returns hclock (hcollected hroom) classId size realStack hresult).imp
        (fun _ _ _ => hfits) fun _ _ h => h.elim

/-- A frame that fits is never refused. -/
theorem allocateFrame_orStops (hfit : c.Fit False) (hsound : Scene.Sound False marked (c.scene 0))
    (classId size realStack : Nat) :
    Act.EndsOrStops (allocateFrame classId size realStack) c (fun _ _ => FakeStack.Fits classId size)
      fun _ _ => ¬ FakeStack.Fits classId size := by
  by_cases hwraps : c.shared.Wraps (.allocateFrame c.thread.id classId size realStack)
  case neg => exact (allocateFrame_judged hfit hsound hwraps).orStops
  obtain ⟨hfits, f, hf, -⟩ := hwraps
  have hcheck : checkFrame classId size = .ok () := by
    rcases checkFrame_cases classId size with ⟨hcheck, -⟩ | ⟨-, hnot⟩
    · exact hcheck
    · exact absurd hfits hnot
  unfold allocateFrame
  rw [Act.endsOrStops_bind]
  refine Act.Ends.orStops ?_
  rw [Act.ends_ofExcept, hcheck]
  refine ⟨fun _ _ => ?_, nofun⟩
  rw [Act.endsOrStops_bind]
  refine Act.Ends.orStops ?_
  rw [Act.ends_get]
  unfold onShared
  rw [Act.endsOrStops_onPart, Act.endsOrStops_bind, Act.endsOrStops_get, hf, Act.endsOrStops_bind]
  refine (ends_attemptFrame hfit hsound hf hfits.1 realStack).orStops.imp ?_ fun _ _ h => h.elim
  rintro result s ⟨hresult, hclock, -⟩
  exact (settleFrame_orStops hclock classId size realStack hresult).imp (fun _ _ _ => hfits)
    fun _ _ h => h.elim

/-- A frame is given back if it is one that the thread has claimed, and refused otherwise. -/
theorem freeFrame_judged (hfit : c.Fit False) (hsound : Scene.Sound False marked (c.scene 0))
    (id p classId size realStack : Nat) :
    Act.Ends (freeFrame p classId size realStack) c
      (fun _ _ => ¬ (Operation.freeFrame id p classId size realStack).Alarms c.outlook)
      fun _ _ => (Operation.freeFrame id p classId size realStack).Alarms c.outlook := by
  unfold freeFrame
  by_cases hreal : p = realStack
  · rw [if_pos hreal]
    exact fun h => h.1 hreal
  rw [if_neg hreal, Act.ends_bind, Act.ends_ofExcept]
  rcases checkFrame_cases classId size with ⟨hcheck, hfits⟩ | ⟨⟨e, hcheck⟩, hfits⟩
  case inr =>
    rw [hcheck]
    exact ⟨nofun, fun _ _ => ⟨hreal, .inl hfits⟩⟩
  rw [hcheck]
  refine ⟨fun _ _ => ?_, nofun⟩
  rw [Act.ends_bind, Act.ends_get, ends_onShared, Act.ends_bind, Act.ends_get, Act.ends_bind,
    Act.ends_orRefuse]
  refine ⟨fun f hf => ?_, fun hnone => ⟨hreal, .inr ?_⟩⟩
  case refine_2 =>
    rintro ⟨f, hf, -⟩
    rw [hnone] at hf
    cases hf
  rw [Act.ends_bind]
  refine ends_onFakeStack hfit hsound hf fun v hv heq => ?_
  subst heq
  have hclaimed : p ∈ c.outlook.claimed classId ↔ p ∈ f.claimedAt classId :=
    ⟨fun ⟨f', hf', hin⟩ => Option.some.inj (hf.symm.trans hf') ▸ hin, fun hin => ⟨f, hf, hin⟩⟩
  refine (FakeStack.View.ends_free hv p).imp ?_ ?_
  · rintro _ w ⟨hin, -⟩
    refine Act.ends_modify.mpr ?_
    rintro ⟨-, h | h⟩
    · exact h hfits
    · exact h (hclaimed.mpr hin)
  · rintro _ w ⟨-, hout, -⟩
    exact ⟨hreal, .inr (mt hclaimed.mp hout)⟩

end Client

/-! ## Calls -/

/-- A call that is carried out is right, and one that is refused is fatal if and only if it is wrong,
    unless there was no memory. -/
def Verdict (s : Sanitizer) (op : Operation) : Prop :=
  Act.Ends op.perform s (fun _ _ => ¬ op.Alarms (s.outlook op.caller))
    fun e _ => e.Shortage ∨ (s.isFatal e = true ↔ op.Alarms (s.outlook op.caller))

variable {marked : Prop} {s : Sanitizer} {t : Thread} {id : Nat}

/-- A call for a chunk is judged by what it asks for. -/
theorem verdict_fetch (hfit : s.Fit False s.threads)
    (hsound : Scene.Sound False marked (s.scene s.threads 0)) (ht : s.thread? id = some t) {f : Fetch}
    {op : Operation} (hperform : op.perform = asThread id (Act.mapError .alloc (Client.fetch f)))
    (halarms : op.Alarms (s.outlook op.caller) ↔ f.Faulty s.options) : s.Verdict op := by
  obtain ⟨hclient, hscene⟩ := client_sound hfit hsound ht
  unfold Verdict
  rw [hperform, halarms]
  refine ends_asThread ht (Act.ends_mapError.mpr ?_)
  exact (Client.fetch_judged hclient hscene f).imp (fun _ _ h => h) fun _ _ h =>
    h.imp_right fun hfaulty => iff_of_true rfl hfaulty

/-- A call of a thread is refused with a fatal error if and only if it is wrong. -/
theorem verdict (hfit : s.Fit False s.threads)
    (hsound : Scene.Sound False marked (s.scene s.threads 0)) {op : Operation} (hop : op.Works)
    (ht : s.thread? op.caller = some t) (hwraps : ¬ s.Wraps op) : s.Verdict op := by
  obtain ⟨hclient, hscene⟩ := client_sound hfit hsound ht
  have hid : t.id = op.caller := (Client.of_thread? ht).2
  cases op with
  | allocate id size alignment api stack =>
      exact verdict_fetch hfit hsound ht (f := .chunk size alignment api stack) rfl Iff.rfl
  | calloc id times size => exact verdict_fetch hfit hsound ht (f := .zeroed times size) rfl Iff.rfl
  | reallocate id p size =>
      refine ends_asThread ht ?_
      have hjudged := Client.reallocate_judged hclient hscene id p size
      rwa [Client.outlook, hid] at hjudged
  | free id p api stack =>
      refine Act.ends_map.mpr (ends_asThread ht ?_)
      have hjudged := Client.free_judged hclient hscene p api stack
      rw [Client.outlook, hid] at hjudged
      exact hjudged.imp (fun _ _ h => h) fun _ _ h => .inr h
  | allocateFrame id classId size realStack =>
      refine ends_asThread ht (Act.ends_mapError.mpr ?_)
      rw [← show t.id = id from hid] at hwraps
      exact (Client.allocateFrame_judged hclient hscene hwraps).imp (fun _ _ h => not_not.mpr h)
        fun _ _ h => .inr (iff_of_true rfl h)
  | freeFrame id p classId size realStack =>
      refine Act.ends_map.mpr (ends_asThread ht (Act.ends_mapError.mpr ?_))
      have hjudged := Client.freeFrame_judged hclient hscene id p classId size realStack
      rw [Client.outlook, hid] at hjudged
      exact hjudged.imp (fun _ _ h => h) fun _ _ h => .inr (iff_of_true rfl h)
  | _ => exact hop.elim

/-- A call that is not wrong is refused only with an error that is not fatal, or for want of memory. -/
theorem spares (hfit : s.Fit False s.threads)
    (hsound : Scene.Sound False marked (s.scene s.threads 0)) {op : Operation} (hop : op.Works)
    (ht : s.thread? op.caller = some t) (halarms : ¬ op.Alarms (s.outlook op.caller)) :
    Act.EndsOrStops op.perform s (fun _ _ => True) fun e _ => e.Shortage ∨ s.isFatal e = false := by
  by_cases hwraps : s.Wraps op
  case neg =>
    refine (verdict hfit hsound hop ht hwraps).orStops.imp (fun _ _ _ => trivial) fun e _ h => ?_
    exact h.imp_right fun hfatal => Bool.eq_false_iff.mpr (mt hfatal.mp halarms)
  -- Only an allocation of a frame that fits can leave the word.
  cases op with
  | allocateFrame id classId size realStack =>
      obtain ⟨hclient, hscene⟩ := client_sound hfit hsound ht
      refine endsOrStops_asThread fun u hu => Act.endsOrStops_mapError.mpr ?_
      obtain rfl := Option.some.inj (hu.symm.trans ht)
      exact (Client.allocateFrame_orStops hclient hscene classId size realStack).imp
        (fun _ _ _ => trivial) fun _ _ h => absurd h halarms
  | _ => exact hwraps.elim

end Sanitizer

end GuardedHeap
