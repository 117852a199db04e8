import GuardedHeap.Proofs.Program.Living

/-! # Verdicts — a process dies at its first wrong call

    What a call asks of the sanitizer is one operation for the registration
    of its thread (`Call.request`), and the operation decides whether the
    call is wrong.  A call that returns was right, and one that does not
    return was wrong and ends on the fatal path, unless there was no memory
    for it or the count of collected frames stopped it
    (`Program.Alive.judged_request`). -/

namespace GuardedHeap

open Act
open Program (minAlignment)

/-! ## Wrong calls -/

namespace Call

/-- What a call asks of the sanitizer for a registered thread, if it may be wrong. -/
def request : Call → Option (Nat → Operation)
  | malloc size => some fun id => .allocate id size minAlignment .malloc 0
  | memalign alignment size => some fun id => .allocate id size alignment .malloc 0
  | new size => some fun id => .allocate id size minAlignment .new 0
  | newArray size => some fun id => .allocate id size minAlignment .newArray 0
  | allocateChunk size alignment stack => some fun id => .allocate id size alignment .malloc stack
  | calloc times size => some fun id => .calloc id times size
  | realloc addr size => some fun id => .reallocate id addr size
  | free addr => some fun id => .free id addr .malloc 0
  | freeChunk addr stack => some fun id => .free id addr .malloc stack
  | delete addr => some fun id => .free id addr .new 0
  | deleteArray addr => some fun id => .free id addr .newArray 0
  | allocateFrame classId size realStack => some fun id => .allocateFrame id classId size realStack
  | freeFrame addr classId size realStack => some fun id => .freeFrame id addr classId size realStack
  | _ => none

/-- The call is wrong, whoever makes it. -/
def Alarms (v : Outlook) (call : Call) : Prop :=
  match call.request with
  | some op => (op 0).Alarms v
  | none => False

variable {call : Call} {op : Nat → Operation}

/-- What is asked for is work for the thread that asks. -/
theorem works_of_request (h : call.request = some op) (id : Nat) : (op id).Works ∧ (op id).caller = id := by
  cases call <;> cases h <;> exact ⟨trivial, rfl⟩

/-- It is as wrong as the call. -/
theorem alarms_of_request (h : call.request = some op) (id : Nat) (v : Outlook) :
    call.Alarms v ↔ (op id).Alarms v := by
  unfold Alarms
  rw [h]
  cases call <;> cases h <;> exact Iff.rfl

end Call

/-- There is no memory for a call of a thread. -/
inductive Program.Starves (p : Program) (thread : Nat) (call : Call) : Prop where
  | crowded (h : p.Crowded thread)
  | request {id : Nat} {q : Program} {s t : Sanitizer} {op : Nat → Operation} {e : SanitizerError}
      (hregistration : p.registration thread = .ok id q) (hs : q.built = some s)
      (hop : call.request = some op) (hrefused : (op id).perform s = .error (.refused e) t)
      (he : e.Shortage)

/-- A call of a thread asks for a frame when the number of frames that the thread has ever had
    collected may leave the word. -/
def Program.Wraps (p : Program) (thread : Nat) (call : Call) : Prop :=
  ∃ id q s op, p.registration thread = .ok id q ∧ q.built = some s ∧ call.request = some op ∧ s.Wraps (op id)

namespace Sanitizer

variable {s t : Sanitizer} {op : Operation}

/-- What an end of a call says, if there is no memory for it when `starves`, it may be stopped when
    `wraps` and it is wrong when `wrong`. -/
def Passes (s : Sanitizer) (starves wraps wrong : Prop) : Halt SanitizerError → Prop
  | .refused e => (s.isFatal e = true → starves ∨ wrong) ∧ (s.isFatal e = false → ¬ wrong)
  | .stopped => wraps ∧ ¬ wrong

theorem isFatal_of_shortage {e : SanitizerError} (h : e.Shortage) : s.isFatal e = true := by
  cases e with
  | free => exact h.elim
  | _ => rfl

/-- What is fatal is a matter of the configuration. -/
theorem isFatal_congr (h : t.config = s.config) (e : SanitizerError) : t.isFatal e = s.isFatal e := by
  unfold isFatal
  rw [h]

/-- The sanitizer refuses the call for want of memory. -/
def Lacks (s : Sanitizer) (op : Operation) : Prop :=
  ∃ e t, op.perform s = .error (.refused e) t ∧ e.Shortage

/-- A free needs no memory. -/
theorem not_lacks_free {past : List Occurrence} (hrun : Run False True past s) (id p : Nat) (api : Api)
    (stack : StackId) : ¬ s.Lacks (.free id p api stack) := by
  rintro ⟨e, t, hact, he⟩
  have hfree : EndsOrStops (Operation.free id p api stack).perform s (fun _ _ => True)
      fun e _ => ¬ e.Shortage := by
    refine endsOrStops_map.mpr (endsOrStops_asThread fun u hu => ?_)
    obtain ⟨hclient, hscene⟩ := client_sound hrun.fit hrun.sound hu
    refine ((Client.ends_free hclient hscene p api stack).imp (fun _ _ _ => trivial) ?_).orStops
    rintro e c (⟨hp, ⟨w, rfl, -⟩, -⟩ | ⟨-, -, hfailing, -⟩)
    · exact not_false
    · exact hfailing.elim
  unfold EndsOrStops at hfree
  rw [hact] at hfree
  exact hfree he

theorem not_alarms_of_wraps (h : s.Wraps op) (v : Outlook) : ¬ op.Alarms v := by
  cases op with
  | allocateFrame => exact fun halarms => halarms h.1
  | _ => exact h.elim

/-- A registered thread is answered if its call is right, and gets a fatal error if it is wrong. -/
theorem finishes_perform {past : List Occurrence} (hrun : Run False True past s) (hop : op.Works)
    (hid : op.caller ∈ s.ids) :
    Finishes op.perform s (fun _ _ => ¬ op.Alarms (s.outlook op.caller))
      fun h _ => s.Passes (s.Lacks op) (s.Wraps op) (op.Alarms (s.outlook op.caller)) h := by
  obtain ⟨t, ht⟩ := mem_ids.mp hid
  by_cases hwraps : s.Wraps op
  · have halarms := not_alarms_of_wraps hwraps (s.outlook op.caller)
    refine (spares hrun.fit hrun.sound hop ht halarms).finishes.imp_eq (fun _ _ _ _ => halarms) ?_
    rintro h t hact hspares
    cases h with
    | stopped => exact ⟨hwraps, halarms⟩
    | refused e =>
        refine ⟨fun hfatal => .inl ⟨e, t, hact, ?_⟩, fun _ => halarms⟩
        refine (hspares e rfl).resolve_right fun hspared => ?_
        rw [hfatal] at hspared
        cases hspared
  · refine (verdict hrun.fit hrun.sound hop ht hwraps).finishes.imp_eq (fun _ _ _ h => h) ?_
    rintro _ t hact ⟨e, rfl, h⟩
    refine ⟨fun hfatal => h.imp (fun he => ⟨e, t, hact, he⟩) fun hiff => hiff.mp hfatal, ?_⟩
    intro hspared halarms
    have hfatal : s.isFatal e = true := h.elim isFatal_of_shortage fun hiff => hiff.mpr halarms
    rw [hfatal] at hspared
    cases hspared

end Sanitizer

namespace Program

variable {ε α β : Type} {config : Config} {p q : Program} {thread id : Nat}

/-- What is known of a process that ends with `e` in the state `q`, if there is no memory when
    `starves`, a call may be stopped when `wraps` and is wrong when `wrong`: a wrong call ends it on the
    fatal path, and a right one reports nothing. -/
def Ended (starves wraps wrong : Prop) (e : Halt Exit) (q : Program) : Prop :=
  starves ∨ wrong ∧ Fatal e q ∨ ¬ wrong ∧ wraps ∧ q.report.reporting = false

theorem Ended.imp {starves starves' wraps wraps' wrong : Prop} {e : Halt Exit}
    (h : Ended starves wraps wrong e q) (hstarves : starves → starves') (hwraps : wraps → wraps') :
    Ended starves' wraps' wrong e q :=
  Or.imp hstarves (Or.imp_right (And.imp_right (And.imp_left hwraps))) h

/-- What follows a call passes its answer on, ends the process because of a fatal error, and passes
    any other error over. -/
structure Settles (wrap : ε → SanitizerError) (k : Except ε α → Act Exit Program β) : Prop where
  answers : ∀ a r, ∃ b, k (.ok a) r = .ok b r
  dies : ∀ e r s, r.built = some s → s.isFatal (wrap e) = true → k (.error e) r = dieOf (wrap e) r
  spares : ∀ e r s, r.built = some s → s.isFatal (wrap e) = false → ∃ b, k (.error e) r = .ok b r

namespace Settles

variable {wrap : ε → SanitizerError} {k : Except ε α → Act Exit Program β}
  {starves wraps wrong : Prop}

/-- Errors that are always fatal end the process. -/
theorem of_dies (hanswers : ∀ a r, ∃ b, k (.ok a) r = .ok b r) (hfatal : ∀ s e, Sanitizer.isFatal s (wrap e) = true)
    (hdies : ∀ e r, k (.error e) r = dieOf (wrap e) r) : Settles wrap k where
  answers := hanswers
  dies := fun e r _ _ _ => hdies e r
  spares := fun e _ s _ hspared => absurd (hfatal s e) (Bool.eq_false_iff.mp hspared)

/-- The sanitizer may be asked whether an error is fatal. -/
theorem of_asks {b : β} (hanswers : ∀ a r, ∃ b, k (.ok a) r = .ok b r)
    (hasks : ∀ e r, k (.error e) r
      = (do if (← sanitizer).isFatal (wrap e) then dieOf (wrap e) else return b : Act Exit Program β) r) :
    Settles wrap k where
  answers := hanswers
  dies := by
    intro e r s hs hfatal
    rw [hasks, sanitizer_bind hs, if_pos hfatal]
  spares := by
    intro e r s hs hspared
    rw [hasks, sanitizer_bind hs, if_neg (Bool.eq_false_iff.mp hspared)]
    exact ⟨b, rfl⟩

/-- The process of a call that is answered lives on. -/
theorem finishes_ok (hk : Settles wrap k) (h : Alive config q) (hright : ¬ wrong) (a : α) :
    Finishes (k (.ok a)) q (fun _ r => ¬ wrong ∧ Alive config r) (Ended starves wraps wrong) := by
  obtain ⟨b, hb⟩ := hk.answers a q
  unfold Finishes
  rw [hb]
  exact ⟨hright, h⟩

/-- The process of a call that is refused dies if the error is fatal, and lives on otherwise. -/
theorem finishes_error (hk : Settles wrap k) (h : Alive config q) {s : Sanitizer} (hs : q.built = some s)
    {e : ε} (hpasses : s.Passes starves wraps wrong (.refused (wrap e))) :
    Finishes (k (.error e)) q (fun _ r => ¬ wrong ∧ Alive config r) (Ended starves wraps wrong) := by
  cases hfatal : s.isFatal (wrap e) with
  | true =>
      have hdies : Finishes (dieOf (wrap e) : Act Exit Program β) q (fun _ _ => False) Fatal :=
        h.finishes_dieOf hs (wrap e)
      unfold Finishes at hdies ⊢
      rw [hk.dies e q s hs hfatal]
      cases hend : (dieOf (wrap e) : Act Exit Program β) q with
      | ok b r =>
          rw [hend] at hdies
          exact hdies.elim
      | error e' r =>
          rw [hend] at hdies
          exact (hpasses.1 hfatal).imp_right fun hwrong => .inl ⟨hwrong, hdies⟩
  | false =>
      obtain ⟨b, hb⟩ := hk.spares e q s hs hfatal
      unfold Finishes
      rw [hb]
      exact ⟨hpasses.2 hfatal, h⟩

end Settles

/-- A call of a registered thread is carried out, and its process dies of a fatal error. -/
theorem Enrolled.finishes_request (h : Enrolled config p thread id q) {op : Operation} (hworks : op.Works)
    (hcaller : op.caller = id) {act : Act ε Sanitizer α} {wrap : ε → SanitizerError} {g : α → Nat}
    (hop : op.perform = g <$> Act.mapError wrap act) {k : Except ε α → Act Exit Program β}
    (hk : Settles wrap k) :
    Finishes (onSanitizer act >>= k) q
      (fun _ r => ¬ op.Alarms (p.outlook config thread) ∧ Alive config r)
      (Ended (∃ s, q.built = some s ∧ s.Lacks op) (∃ s, q.built = some s ∧ s.Wraps op)
        (op.Alarms (p.outlook config thread))) := by
  obtain ⟨s, hs, hid⟩ := h.known
  obtain ⟨past, hrun⟩ := h.alive.runs s hs
  have houtlook : s.outlook op.caller = p.outlook config thread := by
    rw [hcaller, ← outlook_of_built h.alive hs h.registration, h.outlook]
  -- The run of the sanitizer judges the operation, and is itself carried on by it.
  have hperform := Sanitizer.finishes_perform hrun hworks (hcaller ▸ hid)
  rw [houtlook, hop, finishes_map, finishes_mapError] at hperform
  have hregister : op ≠ .register := by
    rintro rfl
    exact hworks
  have hunregister : ∀ id, op ≠ .unregister id := by
    rintro _ rfl
    exact hworks
  have hgoes := Sanitizer.goes_quietly (s := s) hregister hunregister hop (q.registered.map (·.2))
  rw [finishes_bind]
  refine (h.alive.finishes_onSanitizer hs hgoes hperform).imp ?_ ?_
  · rintro x _ ⟨t, rfl, halive, hyes, hrefused⟩
    cases x with
    | ok a => exact hk.finishes_ok halive (hyes a rfl) a
    | error e =>
        obtain ⟨hfatal, hspared⟩ := (hrefused e rfl).1 e rfl
        have hconfig := (halive.configured _ rfl).trans (h.alive.configured s hs).symm
        refine hk.finishes_error halive rfl ⟨fun hf => ?_, fun hf => hspared ?_⟩
        · refine (hfatal ?_).imp_left fun hlacks => ⟨s, hs, hlacks⟩
          exact (Sanitizer.isFatal_congr hconfig _).symm.trans hf
        · exact (Sanitizer.isFatal_congr hconfig _).symm.trans hf
  · rintro e r ⟨hquiet, t, -, hstopped⟩
    obtain ⟨hwraps, hright⟩ := hstopped rfl
    exact .inr (.inr ⟨hright, ⟨s, hs, hwraps⟩, hquiet⟩)

/-- A thread that is registered lacks memory only for what its call asks for. -/
theorem starves_iff {s : Sanitizer} (hs : p.built = some s) (hid : p.registration? thread = some id) {call : Call} :
    p.Starves thread call ↔ ∃ op, call.request = some op ∧ s.Lacks (op id) := by
  have hregistration : registration thread p = .ok id p := by
    unfold registration
    rw [sanitizer_bind hs, Act.get_bind, hid]
    rfl
  constructor
  · rintro (hcrowded | ⟨hregistered, hbuilt, hop, hrefused, he⟩)
    · cases hcrowded with
      | build h => exact nomatch hs.symm.trans h.1
      | register hfirst hnew =>
          cases hfirst.symm.trans (sanitizer_of_built hs)
          exact nomatch hid.symm.trans hnew
    · cases hregistered.symm.trans hregistration
      cases hbuilt.symm.trans hs
      exact ⟨_, hop, _, _, hrefused, he⟩
  · rintro ⟨op, hop, e, t, hrefused, he⟩
    exact .request hregistration hs hop hrefused he

/-- The call lets its process live on if it is right, and ends it on the fatal path if it is wrong,
    unless there is no memory for it. -/
def Judged (config : Config) (p : Program) (thread : Nat) (call : Call) : Prop :=
  Finishes (perform thread call) p
    (fun _ q => ¬ call.Alarms (p.outlook config thread) ∧ Alive config q)
    (Ended (p.Starves thread call) (p.Wraps thread call) (call.Alarms (p.outlook config thread)))

/-- A call is judged by what it asks of the sanitizer. -/
theorem Alive.judged (h : Alive config p) {call : Call} {op : Nat → Operation} {act : Act ε Sanitizer.Client α}
    {k : Except ε α → Act Exit Program Call.Answer} (wrap : ε → SanitizerError) (g : α → Nat)
    (hrequest : call.request = some op)
    (hop : ∀ id, (op id).perform = g <$> Act.mapError wrap (Sanitizer.asThread id act))
    (hperform : perform thread call = asThread thread act >>= k) (hk : Settles wrap k) :
    p.Judged config thread call := by
  unfold Judged asThread at *
  rw [hperform, bind_assoc, finishes_bind]
  refine (h.finishes_registration thread).imp_eq ?_ fun _ _ _ hcrowded => .inl (.crowded hcrowded)
  intro id q hregistration hq
  obtain ⟨hworks, hcaller⟩ := Call.works_of_request hrequest id
  rw [Call.alarms_of_request hrequest id]
  refine (hq.finishes_request hworks hcaller (hop id) hk).imp (fun _ _ h => h) fun e r he => he.imp ?_ ?_
  · exact fun ⟨s, hs, e, t, hrefused, he⟩ => .request hregistration hs hrequest hrefused he
  · exact fun ⟨s, hs, hwraps⟩ => ⟨id, q, s, op, hregistration, hs, hrequest, hwraps⟩

/-- An allocation that is refused ends the process. -/
theorem Alive.judged_allocate (h : Alive config p) {call : Call} {size alignment : Nat} {api : Api}
    {stack : StackId} (hrequest : call.request = some fun id => .allocate id size alignment api stack)
    (hperform : perform thread call = allocate thread size alignment api stack) :
    p.Judged config thread call :=
  h.judged .alloc id hrequest (fun _ => (Sanitizer.asThread_mapError _ _ _).trans (id_map _).symm) hperform
    (.of_dies (fun _ _ => ⟨_, rfl⟩) (fun _ _ => rfl) fun _ _ => rfl)

/-- A free that is refused ends the process if its error is fatal. -/
theorem Alive.judged_free (h : Alive config p) {call : Call} {addr : Nat} {api : Api} {stack : StackId}
    (hrequest : call.request = some fun id => .free id addr api stack)
    (hperform : perform thread call = free thread addr api stack) : p.Judged config thread call := by
  refine h.judged id (fun _ => 0) hrequest (fun _ => ?_) hperform (.of_asks (fun _ _ => ⟨_, rfl⟩) fun _ _ => rfl)
  rw [mapError_id]
  rfl

/-- Every call that may be wrong is judged. -/
theorem Alive.judged_request (h : Alive config p) {call : Call} (hcall : call.request ≠ none) :
    p.Judged config thread call := by
  cases call with
  | malloc | memalign | new | newArray | allocateChunk => exact h.judged_allocate rfl rfl
  | free | freeChunk | delete | deleteArray => exact h.judged_free rfl rfl
  | calloc times size =>
      exact h.judged .alloc id rfl (fun _ => (Sanitizer.asThread_mapError _ _ _).trans (id_map _).symm) rfl
        (.of_dies (fun _ _ => ⟨_, rfl⟩) (fun _ _ => rfl) fun _ _ => rfl)
  | realloc addr size =>
      refine h.judged id id rfl (fun _ => ?_) rfl (.of_asks (fun _ _ => ⟨_, rfl⟩) fun _ _ => rfl)
      rw [mapError_id, id_map]
      rfl
  | allocateFrame classId size realStack =>
      exact h.judged .fakeStack id rfl (fun _ => (Sanitizer.asThread_mapError _ _ _).trans (id_map _).symm) rfl
        (.of_dies (fun _ _ => ⟨_, rfl⟩) (fun _ _ => rfl) fun _ _ => rfl)
  | freeFrame addr classId size realStack =>
      refine h.judged .fakeStack (fun _ => 0) rfl (fun _ => ?_) rfl
        (.of_dies (fun _ _ => ⟨_, rfl⟩) (fun _ _ => rfl) fun _ _ => rfl)
      rw [← Sanitizer.asThread_mapError]
      rfl
  | _ => exact absurd rfl hcall

end Program

end GuardedHeap
