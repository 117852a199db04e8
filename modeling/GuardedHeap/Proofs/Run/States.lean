import GuardedHeap.Proofs.Run.Calls
import GuardedHeap.Proofs.Sanitizer.Beginning

/-! # States — what holds after every event of a run

    Every event is a chain of moves (`Step.comes`), so that the parts of a
    sanitizer agree and its scene is sound in every state that a run
    reaches: `Run.fit` and `Run.sound`, by induction over the events. -/

namespace GuardedHeap

namespace Sanitizer

variable {failing marked : Prop} {s t : Sanitizer}

/-- The deeds of an event that leads to `t`, if no call of the operating system failed. -/
inductive Tells (s : Sanitizer) : Event → Sanitizer → List Deed → Prop where
  | call {op : Operation} {answer : Answer} {t : Sanitizer} {ds : List Deed}
      (htold : s.Told op answer ds)
      (hstacks : ∀ a, answer = .ok a → op.Allocates → t.fakeStacks = s.fakeStacks) :
      s.Tells (.call op answer) t ds
  | write {addr : Nat} {bytes : List UInt8} {t : Sanitizer} :
      s.Tells (.write addr bytes) t
        [.put addr bytes.length fun a => (bytes[a - addr]?).getD 0]
  | tick (now : Calendar.Moment) {t : Sanitizer} : s.Tells (.tick now) t []
  | readLog (log : EventLog) {t : Sanitizer} : s.Tells (.readLog log) t []
  | schedule (failures : List ArmedFailure) {t : Sanitizer} : s.Tells (.schedule failures) t []

/-- The event was a call that gave up. -/
def Abandoned (s : Sanitizer) (e : Event) (t : Sanitizer) : Prop :=
  ∃ op answer, e = .call op answer ∧ s.GivesUp op answer t

/-- What the deeds of an event record is the call that they are of. -/
def Vouches (s : Sanitizer) (e : Event) (ds : List Deed) : Prop :=
  (∀ d ∈ ds, d.Unsigned) ∨ ∃ op answer, e = .call op answer ∧ s.Signs op answer ds

/-- Nothing that the scene shows has changed, and the parts still agree. -/
theorem Comes.of_scene (hfit : t.Fit failing t.threads)
    (hstill : Still marked s s.threads 0 t t.threads 0)
    (hscene : t.scene t.threads 0 = s.scene s.threads 0) : Comes failing marked s [] t :=
  ⟨hfit, hstill.config, (Moves.none _).of_eq hscene.symm, hstill.lasts, fun _ => hstill.counted,
    hstill.guards⟩

/-- What a user may write is a part of an allocated block. -/
theorem Holds.block {addr n : Nat} (hfit : s.Fit failing s.threads) (h : s.Holds addr n) :
    ∃ b ∈ s.heap.blocks, b.record.state = .allocated ∧ b.record.userBegin ≤ addr
      ∧ addr + n ≤ b.record.userBegin + b.record.requestedSize := by
  obtain ⟨k, hk, hstate, hlo, hhi⟩ := h
  obtain ⟨b, hb, rfl⟩ := Redzone.of_chunk? hfit.heap hk
  exact ⟨b, hb, hstate, hlo, hhi⟩

/-- A user's write is one deed. -/
theorem comes_write {addr : Nat} {bytes : List UInt8} (hfit : s.Fit failing s.threads)
    (hsound : Scene.Sound failing marked (s.scene s.threads 0)) (h : s.Holds addr bytes.length) :
    Comes failing marked s [.put addr bytes.length fun a => (bytes[a - addr]?).getD 0]
      { s with heap := s.heap.mapPages (·.write addr bytes) } := by
  obtain ⟨b, hb, hstate, hlo, hhi⟩ := h.block hfit
  have hlt := (hsound.fits b hb (by rw [hstate]; decide)).lt_past
  have hpast := (hfit.heap.past_le hb).2
  have hend := hfit.heap.layout.end_lt
  have hbecomes := hfit.heap.withWrite addr bytes (by omega)
  refine ⟨{ hfit with heap := hbecomes.wf }, rfl, ?_, (Still.of_pages rfl).lasts,
    fun _ => .of_uncounted Deed.added_put fun _ _ => rfl, fun _ => id⟩
  refine (Moves.one (.put (s := s.scene s.threads 0) b addr bytes.length
    (fun a => (bytes[a - addr]?).getD 0) hb hstate (Set.Ico_subset_Ico hlo hhi))).of_eq ?_
  unfold Scene.put scene
  rw [hbecomes.blocks, hbecomes.opened, hbecomes.contents]
  rfl

/-- The next failures of the operating system are no part of the scene. -/
theorem comes_schedule (hfailing : failing) (hfit : s.Fit failing s.threads)
    (failures : List ArmedFailure) :
    Comes failing marked s [] { s with heap := s.heap.mapPages (·.schedule failures) } :=
  .of_scene
    { hfit with
      heap := ⟨{ hfit.heap.layout with }, hfit.heap.region, hfit.heap.large, hfit.heap.backed,
        hfit.heap.records⟩
      calm := fun hnot => absurd hfailing hnot } (.of_pages rfl) rfl

/-- Every event is a chain of moves, and tells its deeds if no call of the operating system can
    fail.  If one fails, freed chunks are lost at most where a call gave up, and what was done is
    still recorded as done by this call. -/
theorem Step.comes {e : Event} (hfit : s.Fit failing s.threads)
    (hsound : Scene.Sound failing marked (s.scene s.threads 0)) (h : s.Step e t)
    (hfails : e.Fails → failing) (hmarks : e.Marks → marked) :
    ∃ ds, Comes failing marked s ds t ∧ (¬ failing → s.Tells e t ds)
      ∧ ((∀ d ∈ ds, d.Keeps) ∨ failing ∧ s.Abandoned e t) ∧ s.Vouches e ds := by
  cases h with
  | @call op answer t hact =>
      have hends : Act.EndsOrStops (Act.attempt op.perform : Act Empty Sanitizer Answer) s
          (fun answer t => Answered failing marked s op answer t) fun _ _ => True :=
        Act.endsOrStops_attempt.mpr (answers_perform hfit hsound op hmarks)
      obtain ⟨ds, hcomes, htold, hkeeps, hsigns⟩ := hends.of_ok hact
      exact ⟨ds, hcomes, fun hcalm => .call (htold hcalm).1 (htold hcalm).2,
        hkeeps.imp_right fun h => ⟨h.1, op, answer, rfl, h.2⟩, .inr ⟨op, answer, rfl, hsigns⟩⟩
  | write hholds =>
      exact ⟨_, comes_write hfit hsound hholds, fun _ => .write,
        .inl (List.forall_mem_singleton.mpr trivial), .inl (List.forall_mem_singleton.mpr trivial)⟩
  | tick now =>
      exact ⟨[], .of_scene { hfit with clock := rfl } (.unseen rfl rfl rfl rfl rfl rfl) rfl, fun _ => .tick now,
        .inl (List.forall_mem_nil _), .inl (List.forall_mem_nil _)⟩
  | readLog log =>
      exact ⟨[], .of_scene { hfit with } (.unseen rfl rfl rfl rfl rfl rfl) rfl, fun _ => .readLog log,
        .inl (List.forall_mem_nil _), .inl (List.forall_mem_nil _)⟩
  | schedule failures =>
      exact ⟨[], comes_schedule (hfails trivial) hfit failures, fun _ => .schedule failures,
        .inl (List.forall_mem_nil _), .inl (List.forall_mem_nil _)⟩

end Sanitizer

namespace Run

variable {failing marked : Prop} {past : List Occurrence} {s : Sanitizer}

/-- A run begins with parts that agree, and nothing in them. -/
theorem begins {config : Config} {log : EventLog} {capture : StackCapture}
    {now : Calendar.Moment} {p q : Pages} (hinit : Sanitizer.init config log capture now p = .ok s q)
    (hcalm : p.armed ≠ none → failing) : s.Fit failing s.threads ∧ s.Fresh := by
  have hends : Act.EndsOrStops (Sanitizer.init config log capture now) p
      (fun s _ => s.Fit failing s.threads ∧ s.Fresh ∧ s.config = config) fun _ _ => True :=
    Sanitizer.endsOrStops_init fun hnot => by_contra fun harmed => hnot (hcalm harmed)
  obtain ⟨hfit, hfresh, -⟩ := hends.of_ok hinit
  exact ⟨hfit, hfresh⟩

/-- In every state of a run the parts of the sanitizer agree, and its scene is sound. -/
theorem fit_and_sound (h : Run failing marked past s) :
    s.Fit failing s.threads ∧ Scene.Sound failing marked (s.scene s.threads 0) := by
  induction h with
  | start hinit hcalm =>
      obtain ⟨hfit, hfresh⟩ := begins hinit hcalm
      exact ⟨hfit, hfresh.sound⟩
  | snoc _ hstep hfails hmarks ih =>
      obtain ⟨ds, hcomes, -⟩ := hstep.comes ih.1 ih.2 hfails hmarks
      exact ⟨hcomes.fit, hcomes.sound ih.2⟩

theorem fit (h : Run failing marked past s) : s.Fit failing s.threads :=
  h.fit_and_sound.1

theorem sound (h : Run failing marked past s) : Scene.Sound failing marked (s.scene s.threads 0) :=
  h.fit_and_sound.2

/-- What lasts, and holds of a fresh sanitizer, holds in every state of a run without failures. -/
theorem lasts {K : Sanitizer → List Thread → Multiset Quarantine.Entry → Prop}
    (h : Run False marked past s) (hK : Sanitizer.Lasting False marked K)
    (hfresh : ∀ s : Sanitizer, s.Fresh → K s s.threads 0) : K s s.threads 0 := by
  induction h with
  | start hinit hcalm => exact hfresh _ (begins hinit hcalm).2
  | snoc hbefore hstep hfails hmarks ih =>
      obtain ⟨ds, hcomes, -⟩ := hstep.comes hbefore.fit hbefore.sound hfails hmarks
      exact hcomes.lasts ⟨not_false, hbefore.fit, hbefore.sound⟩ _ hK ih

/-- Unless users mark the shadow by hand every chunk wears the marks of its state, also where calls
    of the operating system failed. -/
theorem guarded (h : Run failing marked past s) (hmarked : ¬ marked) : s.heap.Guarded := by
  induction h with
  | start hinit hcalm =>
      obtain ⟨-, hfresh⟩ := begins hinit hcalm
      exact fun b hb => absurd hb.1 (hfresh.heap.blocks ▸ Set.notMem_empty b)
  | snoc hbefore hstep hfails hmarks ih =>
      obtain ⟨ds, hcomes, -⟩ := hstep.comes hbefore.fit hbefore.sound hfails hmarks
      exact hcomes.guards hmarked ih

/-- Every event of a run happened in a state of a run. -/
theorem occurrence (h : Run failing marked past s) {o : Occurrence} (ho : o ∈ past) :
    ∃ earlier, Run failing marked earlier o.before ∧ o.before.Step o.event o.after
      ∧ (o.event.Fails → failing) ∧ (o.event.Marks → marked) := by
  induction h with
  | start => exact nomatch ho
  | snoc hbefore hstep hfails hmarks ih =>
      rcases List.mem_append.mp ho with ho | ho
      · exact ih ho
      · obtain rfl := List.mem_singleton.mp ho
        exact ⟨_, hbefore, hstep, hfails, hmarks⟩

/-- What an event of a run without failures did is told by the event. -/
theorem tells (h : Run False marked past s) {o : Occurrence} (ho : o ∈ past) :
    ∃ earlier ds, Run False marked earlier o.before
      ∧ Sanitizer.Comes False marked o.before ds o.after ∧ o.before.Tells o.event o.after ds := by
  obtain ⟨earlier, hrun, hstep, hfails, hmarks⟩ := h.occurrence ho
  obtain ⟨ds, hcomes, htells, -⟩ := hstep.comes hrun.fit hrun.sound hfails hmarks
  exact ⟨earlier, ds, hrun, hcomes, htells not_false⟩

end Run

end GuardedHeap
