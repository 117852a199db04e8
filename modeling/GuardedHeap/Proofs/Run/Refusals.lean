import GuardedHeap.Proofs.Repeats
import GuardedHeap.Proofs.Run.Failures

/-! # Refusals — allocations that fail leave no trace

    A thread gets a chunk in two ways, with or without zeros, and either
    is one action on its session (`Fetch.act`); what is around it counts
    and takes a trace.  A refused one changes nothing but pages and the
    number of traces, and if the operating system refused it, it would
    have returned a chunk otherwise: the same that it returns when it is
    made again (`Run.allocation_refused`). -/

namespace GuardedHeap

open Heap (Session)

/-- What an action answers, whatever becomes of the state. -/
def Act.answer {ε σ α : Type} (act : Act ε σ α) (s : σ) : Except (Halt ε) α :=
  match act s with
  | .ok a _ => .ok a
  | .error h _ => .error h

/-- What is alike answers alike. -/
theorem Act.Alike.answer {ε σ α : Type} {r : σ → σ → Prop} {act act' : Act ε σ α} {s s' : σ}
    (h : Act.Alike r act act' s s') : act.answer s = act'.answer s' := by
  unfold Act.Alike Act.answer at *
  cases hs : act s with
  | ok a t =>
      cases hs' : act' s' with
      | ok a' t' => rw [hs, hs'] at h; exact congrArg _ h.1
      | error e' t' => rw [hs, hs'] at h; exact h.elim
  | error e t =>
      cases hs' : act' s' with
      | ok a' t' => rw [hs, hs'] at h; exact h.elim
      | error e' t' => rw [hs, hs'] at h; exact congrArg _ h.1

/-- Behind an action that returns the next one answers. -/
theorem Act.answer_of_ok {ε σ α β : Type} {act : Act ε σ α} {next : α → Act ε σ β} {s t : σ} {a : α}
    (h : act s = .ok a t) : (act >>= next).answer s = (next a).answer t := by
  unfold Act.answer
  rw [bind_of_ok h]

/-- An action that is refused answers for those behind it. -/
theorem Act.answer_of_error {ε σ α β : Type} {act : Act ε σ α} {next : α → Act ε σ β} {s t : σ}
    {e : Halt ε} (h : act s = .error e t) : (act >>= next).answer s = .error e := by
  unfold Act.answer
  rw [bind_of_error h]

/-- An error that an action hands on comes from the action. -/
theorem Act.answer_mapError_refused {ε ε' σ α : Type} {g : ε → ε'} {act : Act ε σ α} {s : σ} {e : ε'} :
    (Act.mapError g act).answer s = .error (.refused e) ↔
      ∃ e', act.answer s = .error (.refused e') ∧ g e' = e := by
  unfold Act.answer Act.mapError
  cases act s with
  | ok a t => simp
  | error h t => cases h <;> simp

/-- What an action that hands its errors on returns, the action returns. -/
theorem Act.answer_mapError_ok {ε ε' σ α : Type} {g : ε → ε'} {act : Act ε σ α} {s : σ} {a : α} :
    (Act.mapError g act).answer s = .ok a ↔ act.answer s = .ok a := by
  unfold Act.answer Act.mapError
  cases act s with
  | ok b t => simp
  | error h t => cases h <;> simp

/-- Errors that are renamed alike stay alike. -/
theorem Act.answer_mapError_congr {ε ε' σ τ α : Type} {g : ε → ε'} {act : Act ε σ α}
    {act' : Act ε τ α} {s : σ} {s' : τ} (h : act.answer s = act'.answer s') :
    (Act.mapError g act).answer s = (Act.mapError g act').answer s' := by
  unfold Act.answer at h
  unfold Act.answer Act.mapError
  cases hs : act s with
  | ok a t =>
      cases hs' : act' s' with
      | ok a' t' => rw [hs, hs'] at h; exact congrArg _ (Except.ok.inj h)
      | error e' t' => rw [hs, hs'] at h; exact nomatch h
  | error e t =>
      cases hs' : act' s' with
      | ok a' t' => rw [hs, hs'] at h; exact nomatch h
      | error e' t' =>
          rw [hs, hs'] at h
          obtain rfl := Except.error.inj h
          cases e <;> rfl

/-- An attempt answers what its action does. -/
theorem Act.answer_attempt {ε ε' σ α : Type} {act : Act ε σ α} {s t : σ} {answer : Except ε α}
    (h : (Act.attempt act : Act ε' σ (Except ε α)) s = .ok answer t) :
    act.answer s = answer.mapError .refused := by
  unfold Act.attempt at h
  unfold Act.answer
  cases hs : act s with
  | ok a t => rw [hs] at h; cases h; rfl
  | error e t =>
      rw [hs] at h
      cases e with
      | refused e => cases h; rfl
      | stopped => exact nomatch h

/-- An action that does not stop can be attempted. -/
theorem Act.attempt_of_answer {ε ε' σ α : Type} {act : Act ε σ α} {s : σ} {answer : Except ε α}
    (h : act.answer s = answer.mapError .refused) :
    ∃ t, (Act.attempt act : Act ε' σ (Except ε α)) s = .ok answer t := by
  unfold Act.attempt
  unfold Act.answer at h
  cases hs : act s with
  | ok a t =>
      rw [hs] at h
      cases answer with
      | ok b => exact ⟨t, by rw [Except.ok.inj h]⟩
      | error e => exact nomatch h
  | error e t =>
      rw [hs] at h
      cases answer with
      | ok b => exact nomatch h
      | error e' => exact ⟨t, by rw [Except.error.inj h]⟩

namespace Event

/-- The event is a call that a call of the operating system made fail. -/
def blamesSystem : Event → Bool
  | call _ (.error (.alloc (.map _))) => true
  | _ => false

/-- Only a call of the system that failed is blamed on it. -/
theorem of_blamesSystem {op : Operation} {e : SanitizerError}
    (h : (call op (.error e)).blamesSystem = true) : ∃ m, e = .alloc (.map m) := by
  cases e with
  | alloc e =>
      cases e with
      | map m => exact ⟨m, rfl⟩
      | _ => exact nomatch h
  | _ => exact nomatch h

end Event

/-! ## Fetching -/

/-- A way to get a chunk. -/
inductive Fetch where
  | chunk (size alignment : Nat) (api : Api) (stack : StackId)
  | zeroed (times size : Nat)

namespace Fetch

/-- The action on the session of the thread. -/
def act : Fetch → RedzoneOptions → Origin → Act AllocError Session Nat
  | chunk size alignment api _, o, origin => Redzone.allocate o size alignment api origin
  | zeroed times size, o, origin => Redzone.allocateZeroed o times size origin

/-- The trace that the caller has, if any. -/
def stack : Fetch → StackId
  | chunk _ _ _ stack => stack
  | zeroed .. => 0

/-- The number of bytes that are asked for. -/
def size : Fetch → Nat
  | chunk size .. => size
  | zeroed times size => times * size

variable {f : Fetch} {o : RedzoneOptions} {s s' : Session}

/-- A chunk is returned, or the refusal is explained. -/
theorem ends_act {failing marked : Prop} {holders : Holders} (ho : o.Valid) (hwf : s.WF)
    (hsound : Scene.Sound failing marked (s.scene holders)) (origin : Origin) :
    Act.Ends (f.act o origin) s (fun _ _ => True) (Session.Declines (f.act o origin) s) := by
  cases f with
  | chunk size alignment api stack =>
      exact (Redzone.ends_allocate ho hwf hsound size alignment api origin).imp
        (fun _ _ _ => trivial) fun _ _ hno => hno
  | zeroed times size =>
      exact (Redzone.ends_allocateZeroed ho hwf hsound times size origin).imp
        (fun _ _ _ => trivial) fun _ _ hno => hno

/-- Whoever a chunk is for, the answer is the same. -/
theorem answer_twin (htwin : Session.Twin s s') (origin origin' : Origin) :
    (f.act o origin).answer s = (f.act o origin').answer s' := by
  cases f with
  | chunk => exact (Redzone.alike_allocate htwin _ _ _ _ _).answer
  | zeroed => exact (Redzone.alike_allocateZeroed htwin _ _ _ _).answer

end Fetch

/-- An action that is refused answers so. -/
theorem Act.answer_of_refused {ε σ α : Type} {act : Act ε σ α} {s : σ} {e : ε} {p : σ → Prop}
    (h : Act.Ends act s (fun _ _ => False) fun e' t => e' = e ∧ p t) :
    act.answer s = .error (.refused e) := by
  rcases Act.ends_iff.mp h with ⟨_, _, _, hno⟩ | ⟨e', t, hact, rfl, -⟩
  · exact hno.elim
  · unfold answer
    rw [hact]

/-- A refused action says why it was. -/
theorem Heap.Session.blames_of_answer {act : Act AllocError Session Nat} {s : Session}
    {e : AllocError} (hends : Act.Ends act s (fun _ _ => True) (Session.Declines act s))
    (hrefused : act.answer s = .error (.refused e)) : Heap.Blames act s.on s.heap.pages e := by
  unfold Act.answer at hrefused
  rcases Act.ends_iff.mp hends with ⟨user, t, hact, -⟩ | ⟨e', t, hact, hdeclines⟩
  · rw [hact] at hrefused
    exact nomatch hrefused
  · rw [hact] at hrefused
    cases hrefused
    exact hdeclines.blames

/-- An action that a failing call of the operating system made refuse returns where none fails. -/
theorem Heap.Session.returns_of_answer {act : Act AllocError Session Nat} {s : Session} {q : Pages}
    {m : MapError} (hq : q.armed = none)
    (hends : Act.Ends act (s.on q) (fun _ _ => True) (Session.Declines act (s.on q)))
    (hrefused : act.answer s = .error (.refused (.map m))) :
    ∃ user, act.answer (s.on q) = .ok user := by
  rcases Act.ends_iff.mp hends with ⟨user, t, hact, -⟩ | ⟨e, t, hact, -, ⟨-, harmed⟩ | ⟨hreason, hall⟩⟩
  · exact ⟨user, by unfold Act.answer; rw [hact]⟩
  · exact absurd hq harmed
  · -- The same refusal would come on the pages that there are.
    rw [Act.answer_of_refused (hall s.heap.pages)] at hrefused
    cases hrefused
    exact absurd rfl (AllocError.ne_map hreason m)

namespace Sanitizer

namespace Client

theorem onSession_ok {ε α : Type} {act : Act ε Session α} {c : Client} {a : α} {t : Session}
    (h : act c.session = .ok a t) : onSession act c = .ok a (c.withSession t) := by
  unfold onSession Act.onPart
  rw [h]

theorem onSession_error {ε α : Type} {act : Act ε Session α} {c : Client} {e : Halt ε} {t : Session}
    (h : act c.session = .error e t) : onSession act c = .error e (c.withSession t) := by
  unfold onSession Act.onPart
  rw [h]

/-- Get a chunk for a thread. -/
def fetch (f : Fetch) : Act AllocError Client Nat := do
  let c ← get
  let origin ← onShared (origin c.thread.tid f.stack)
  let user ← onSession (f.act c.options origin)
  onShared (count .mallocs)
  onShared (countBy .bytesAllocated f.size)
  return user

/-- What a thread is answered is what its session answers. -/
theorem answer_fetch (c : Client) (f : Fetch) :
    (fetch f).answer c =
      (f.act c.options (c.shared.originOf 0 c.thread.tid f.stack)).answer c.session := by
  have horigin : (origin c.thread.tid f.stack : Act AllocError Sanitizer Origin) c.shared =
      .ok (c.shared.originOf 0 c.thread.tid f.stack)
        { c.shared with captures := c.shared.captures + traces f.stack } := by
    have hends : Act.Ends (origin c.thread.tid f.stack : Act AllocError Sanitizer Origin) c.shared
        _ fun _ _ => False := ends_origin c.thread.tid f.stack
    rcases Act.ends_iff.mp hends with ⟨_, _, hact, rfl, rfl⟩ | ⟨_, _, _, hno⟩
    · exact hact
    · exact hno.elim
  have htraced : (onShared (origin c.thread.tid f.stack) : Act AllocError Client Origin) c =
      .ok (c.shared.originOf 0 c.thread.tid f.stack)
        { c with shared := { c.shared with captures := c.shared.captures + traces f.stack } } := by
    unfold onShared Act.onPart
    rw [horigin]
  refine (Act.answer_of_ok (s := c) htraced).trans ?_
  generalize hc' : ({ c with shared := { c.shared with captures := c.shared.captures + traces f.stack } } :
    Client) = c'
  have hsession : c'.session = c.session := by rw [← hc']; rfl
  rw [← hsession]
  cases hact : f.act c.options (c.shared.originOf 0 c.thread.tid f.stack) c'.session with
  | ok user t =>
      refine (Act.answer_of_ok (onSession_ok hact)).trans ?_
      unfold Act.answer
      rw [hact]
      rfl
  | error e t =>
      refine (Act.answer_of_error (onSession_error hact)).trans ?_
      unfold Act.answer
      rw [hact]

/-- The session of a thread returns a chunk, or the refusal is explained. -/
theorem ends_fetched {failing marked : Prop} {c : Client} (hfit : c.Fit failing)
    (hsound : Scene.Sound failing marked (c.scene 0)) (f : Fetch) (origin : Origin) :
    Act.Ends (f.act c.options origin) c.session (fun _ _ => True)
      (Session.Declines (f.act c.options origin) c.session) := by
  rw [scene_session] at hsound
  exact f.ends_act (Config.valid_redzoneOptions hfit.config) (session_wf hfit) hsound origin

/-- A thread that is refused a chunk has changed nothing. -/
theorem ends_fetch {failing marked : Prop} {c : Client} (hfit : c.Fit failing)
    (hsound : Scene.Sound failing marked (c.scene 0)) (f : Fetch) :
    Act.Ends (fetch f) c (fun _ _ => True) fun _ c' =>
      Rests failing marked c 0 c' ∧ Idles (traces f.stack) c c' := by
  cases f with
  | chunk size alignment api stack =>
      exact (ends_allocate hfit hsound size alignment api stack).imp (fun _ _ _ => trivial)
        fun _ _ hno => hno
  | zeroed times size =>
      exact (ends_calloc hfit hsound times size).imp (fun _ _ _ => trivial) fun _ _ hno => hno

end Client

/-- What a registered thread is answered is what its client answers. -/
theorem answer_asThread {ε α : Type} {s : Sanitizer} {id : Nat} {u : Thread} (act : Act ε Client α)
    (hu : s.thread? id = some u) : (asThread id act).answer s = act.answer ⟨u, s⟩ := by
  unfold Act.answer asThread
  rw [hu]
  dsimp only
  cases act ⟨u, s⟩ <;> rfl

end Sanitizer

namespace Operation

/-- The thread that the call gets a chunk for, and how. -/
def fetch? : Operation → Option (Nat × Fetch)
  | allocate id size alignment api stack => some (id, .chunk size alignment api stack)
  | calloc id times size => some (id, .zeroed times size)
  | reallocate id p size => if p = 0 then some (id, .chunk size Shadow.granule .malloc 0) else none
  | _ => none

/-- A call that fetches a chunk does so on behalf of its thread. -/
theorem perform_fetch {op : Operation} {id : Nat} {f : Fetch} (h : op.fetch? = some (id, f)) :
    op.perform = Sanitizer.asThread id (Act.mapError .alloc (Sanitizer.Client.fetch f)) := by
  cases op with
  | allocate => cases h; rfl
  | calloc => cases h; rfl
  | reallocate id' p size =>
      dsimp only [fetch?] at h
      by_cases hp : p = 0
      · rw [if_pos hp] at h
        cases h
        show Sanitizer.asThread _ (Sanitizer.Client.reallocate p size) = _
        unfold Sanitizer.Client.reallocate
        rw [if_pos hp]
        rfl
      · rw [if_neg hp] at h
        exact nomatch h
  | _ => exact nomatch h

end Operation

namespace Sanitizer

variable {failing marked : Prop} {s t : Sanitizer} {op : Operation} {id : Nat} {f : Fetch}

/-- The sanitizer when no call of the operating system is going to fail. -/
def eased (s : Sanitizer) : Sanitizer :=
  { s with heap := s.heap.mapPages (·.schedule []) }

/-- The sanitizers differ in pages, though not in what these hold, and in the number of traces. -/
structure Traceless (s t : Sanitizer) : Prop where
  heap : s.heap.Repaged t.heap
  same : ∃ captures, t = { s with heap := t.heap, captures }

/-- A call that is refused a chunk leaves no trace. -/
theorem refuses_fetch (hfit : s.Fit failing s.threads)
    (hsound : Scene.Sound failing marked (s.scene s.threads 0)) (hop : op.fetch? = some (id, f)) :
    Act.EndsOrStops op.perform s (fun _ _ => True) fun _ t => s.Traceless t := by
  rw [Operation.perform_fetch hop]
  refine endsOrStops_asThread fun u hu => ?_
  obtain ⟨hclient, hscene⟩ := client_sound hfit hsound hu
  rw [Act.endsOrStops_mapError]
  refine ((Client.ends_fetch hclient hscene f).imp (fun _ _ _ => trivial) ?_).orStops
  rintro _ c ⟨hrests, hidles⟩
  refine ⟨hrests.untouched.heap, s.captures + traces f.stack, ?_⟩
  have hthreads := (untouched_settled hfit hu hrests).threads
  show Client.settled c = { s with heap := c.shared.heap, captures := _ }
  have hshared : c.shared = { s with heap := c.shared.heap, captures := s.captures + traces f.stack } :=
    congrArg Client.shared hidles.same
  unfold Client.settled at hthreads ⊢
  rw [show replaceThread c.thread c.shared.threads = s.threads from hthreads]
  rw [hshared]

/-- What a registered thread is answered is what its session answers. -/
theorem answer_perform {u : Thread} (hop : op.fetch? = some (id, f)) (hu : s.thread? id = some u) :
    op.perform.answer s = (Act.mapError SanitizerError.alloc
      (f.act s.config.redzoneOptions (s.originOf 0 u.tid f.stack))).answer ⟨s.heap, u.cache⟩ := by
  rw [Operation.perform_fetch hop, answer_asThread _ hu]
  exact Act.answer_mapError_congr (Client.answer_fetch ⟨u, s⟩ f)

/-- What the session of a thread answers, the call answers. -/
theorem step_of_answer {u : Thread} (answer : Except AllocError Nat) (hop : op.fetch? = some (id, f))
    (hu : s.thread? id = some u)
    (h : (f.act s.config.redzoneOptions (s.originOf 0 u.tid f.stack)).answer ⟨s.heap, u.cache⟩ =
      answer.mapError .refused) : ∃ t, s.Step (.call op (answer.mapError .alloc)) t := by
  suffices hanswer : op.perform.answer s = (answer.mapError SanitizerError.alloc).mapError .refused by
    obtain ⟨t, hact⟩ := Act.attempt_of_answer hanswer
    exact ⟨t, .call hact⟩
  rw [answer_perform hop hu]
  cases answer with
  | ok user => exact Act.answer_mapError_ok.mpr h
  | error e => exact Act.answer_mapError_refused.mpr ⟨e, h, rfl⟩

/-- A call that finds a session again that differs in pages answers it as before, if no call of the
    operating system fails. -/
theorem Traceless.answers_twice (h : s.Traceless t) {u : Thread} {user : Nat}
    (hop : op.fetch? = some (id, f)) (hu : s.thread? id = some u)
    (huser : (f.act s.config.redzoneOptions (s.originOf 0 u.tid f.stack)).answer
      ⟨s.eased.heap, u.cache⟩ = .ok user) :
    ∃ s' t', s.eased.Step (.call op (.ok user)) s' ∧ t.eased.Step (.call op (.ok user)) t' := by
  obtain ⟨captures, hsame⟩ := h.same
  have htwin : Session.Twin ⟨s.eased.heap, u.cache⟩ ⟨t.eased.heap, u.cache⟩ := by
    refine ⟨⟨t.heap.pages.schedule [], ?_, rfl, rfl⟩, rfl⟩
    show t.heap.mapPages _ = _
    rw [h.heap.same]
    rfl
  have hu' : t.eased.thread? id = some u := by rw [hsame]; exact hu
  have huser' : (f.act t.config.redzoneOptions (t.originOf 0 u.tid f.stack)).answer
      ⟨t.eased.heap, u.cache⟩ = .ok user := by
    rw [show t.config = s.config by rw [hsame]]
    exact (Fetch.answer_twin htwin _ _).symm.trans huser
  obtain ⟨s', hs'⟩ := step_of_answer (s := s.eased) (.ok user) hop hu huser
  obtain ⟨t', ht'⟩ := step_of_answer (s := t.eased) (.ok user) hop hu' huser'
  exact ⟨s', t', hs', ht'⟩

/-- A thread that is not registered is answered nothing. -/
theorem thread_of_answer {answer : Answer} (hop : op.fetch? = some (id, f))
    (h : op.perform.answer s = answer.mapError .refused) : ∃ u, s.thread? id = some u := by
  rw [Operation.perform_fetch hop] at h
  unfold Act.answer asThread at h
  cases hu : s.thread? id with
  | some u => exact ⟨u, rfl⟩
  | none =>
      rw [hu] at h
      cases answer <;> exact nomatch h

end Sanitizer

namespace Run

variable {failing marked : Prop} {past : List Occurrence} {s t : Sanitizer} {op : Operation}
  {id : Nat} {f : Fetch} {e : SanitizerError}

/-- The run goes on when no failure is set up any more. -/
theorem eased (h : Run failing marked past s) (hfailing : failing) :
    Run failing marked (past ++ [⟨s, .schedule [], s.eased⟩]) s.eased :=
  h.snoc (.schedule []) (fun _ => hfailing) False.elim

/-- A call that is refused a chunk leaves everything as it was but what the pages allow and the
    number of traces.  If the operating system is to blame, the call would have returned a chunk
    otherwise, and returns the same one when it is made again; if it is not, the call would have
    been refused anyway. -/
theorem allocation_refused (h : Run failing marked past s) (hop : op.fetch? = some (id, f))
    (hstep : s.Step (.call op (.error e)) t) :
    s.Traceless t ∧ ((∃ m, e = .alloc (.map m)) ∧
        (∃ user s' t', s.eased.Step (.call op (.ok user)) s' ∧ t.eased.Step (.call op (.ok user)) t')
      ∨ (∀ m, e ≠ .alloc (.map m)) ∧ ∃ s', s.eased.Step (.call op (.error e)) s') := by
  cases hstep with
  | call hact =>
    have hanswer := Act.answer_attempt hact
    have htraceless : s.Traceless t := by
      have hends : Act.EndsOrStops (Act.attempt op.perform : Act Empty Sanitizer Answer) s
          (fun answer t => ∀ e, answer = .error e → s.Traceless t) fun _ _ => True :=
        Act.endsOrStops_attempt.mpr ((Sanitizer.refuses_fetch h.fit h.sound hop).imp
          (fun _ _ _ => nofun) fun _ _ htraceless _ _ => htraceless)
      exact hends.of_ok hact e rfl
    refine ⟨htraceless, ?_⟩
    obtain ⟨u, hu⟩ := Sanitizer.thread_of_answer hop hanswer
    rw [Sanitizer.answer_perform hop hu] at hanswer
    obtain ⟨e', hrefused, rfl⟩ := Act.answer_mapError_refused.mp hanswer
    obtain ⟨hclient, hscene⟩ := Sanitizer.client_sound h.fit h.sound hu
    rcases Session.blames_of_answer (Sanitizer.Client.ends_fetched hclient hscene f _) hrefused with
      ⟨⟨m, rfl⟩, harmed⟩ | ⟨hreason, hall⟩
    · have hfailing : failing := by_contra fun hnot => harmed (h.fit.calm hnot)
      have heased := h.eased hfailing
      -- Without the failure the same session returns a chunk.
      obtain ⟨hclient', hscene'⟩ := Sanitizer.client_sound heased.fit heased.sound
        (show s.eased.thread? id = some u from hu)
      obtain ⟨user, huser⟩ := Session.returns_of_answer (q := s.heap.pages.schedule []) rfl
        (Sanitizer.Client.ends_fetched hclient' hscene' f _) hrefused
      exact .inl ⟨⟨m, rfl⟩, user, htraceless.answers_twice hop hu huser⟩
    · have heased : (f.act s.config.redzoneOptions (s.originOf 0 u.tid f.stack)).answer
          ⟨s.eased.heap, u.cache⟩ = .error (.refused e') :=
        Act.answer_of_refused (hall (s.heap.pages.schedule []))
      obtain ⟨s', hs'⟩ := Sanitizer.step_of_answer (s := s.eased) (.error e') hop hu heased
      exact .inr ⟨fun m heq => AllocError.ne_map hreason m (SanitizerError.alloc.inj heq), s', hs'⟩

/-- There is no memory for a large chunk, which is handed out when it is asked for again. -/
theorem allocation_refused_again :
    ∃ past s t e, Run True False past s
      ∧ s.Step (.call (.allocate 0 8000000 8 .malloc 0) (.error e)) t ∧ s.Traceless t
      ∧ ∃ user s' t', s.eased.Step (.call (.allocate 0 8000000 8 .malloc 0) (.ok user)) s'
        ∧ t.eased.Step (.call (.allocate 0 8000000 8 .malloc 0) (.ok user)) t' := by
  obtain ⟨past, s, t, answer, hrun, hstep, hcheck⟩ := last_call True False
    (show Request.plays {} .counter {}
      [.call .register, .call (.allocate 0 10 8 .malloc 0), .schedule [⟨.mprotect, 12, 0⟩]]
      (fun _ s => ((Request.call (.allocate 0 8000000 8 .malloc 0)).occurrence s).any
        (·.event.blamesSystem)) = true by
      decide +kernel)
    (by simp [Request.Fits, Operation.Marks])
  cases answer with
  | ok a => exact absurd hcheck Bool.false_ne_true
  | error e =>
      obtain ⟨htraceless, ⟨-, hagain⟩ | ⟨hne, -⟩⟩ := allocation_refused hrun rfl hstep
      · exact ⟨past, s, t, e, hrun, hstep, htraceless, hagain⟩
      · obtain ⟨m, rfl⟩ := Event.of_blamesSystem hcheck
        exact absurd rfl (hne m)

end Run

end GuardedHeap
