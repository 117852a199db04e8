import GuardedHeap.Sanitizer.Allocation
import GuardedHeap.Sanitizer.Diagnosis
import GuardedHeap.Sanitizer.Frames

/-! # Runs — what can happen to a sanitizer, one event after the other

    An event is a call with its answer, a write of a user to a chunk that
    it has, or something that the surroundings do: time goes on, the log is
    read, and the next failures of the operating system are set up.  A
    `Run` begins with making a sanitizer, goes on with any sequence of
    events, and keeps for each of them the states before and after. -/

namespace GuardedHeap

/-- A call, with the id of the thread that makes it where it has one. -/
inductive Operation where
  | register
  | unregister (id : Nat)
  | allocate (id size alignment : Nat) (api : Api) (stack : StackId)
  | calloc (id times size : Nat)
  | reallocate (id p size : Nat)
  | free (id p : Nat) (api : Api) (stack : StackId)
  | allocateFrame (id classId size realStack : Nat)
  | freeFrame (id p classId size realStack : Nat)
  | noReturn (id : Nat)
  | poison (addr size : Nat)
  | unpoison (addr size : Nat)
  | classify (tid addr : Nat) (isWrite : Bool) (size : Nat)
  | setExitCode (code : Int)
  | reportStats

namespace Operation

open Sanitizer

/-- Carry a call out.  The answer is an address or an id where there is one, and zero elsewhere. -/
def perform : Operation → Act SanitizerError Sanitizer Nat
  | register => Sanitizer.register
  | unregister id => (fun _ => 0) <$> Sanitizer.unregister id
  | allocate id size alignment api stack =>
    asThread id (Act.mapError .alloc (Client.allocate size alignment api stack))
  | calloc id times size => asThread id (Act.mapError .alloc (Client.calloc times size))
  | reallocate id p size => asThread id (Client.reallocate p size)
  | free id p api stack => (fun _ => 0) <$> asThread id (Client.free p api stack)
  | allocateFrame id classId size realStack =>
    asThread id (Act.mapError .fakeStack (Client.allocateFrame classId size realStack))
  | freeFrame id p classId size realStack =>
    (fun _ => 0) <$> asThread id (Act.mapError .fakeStack (Client.freeFrame p classId size realStack))
  | noReturn id => (fun _ => 0) <$> asThread id Client.noReturn
  | poison addr size => (fun _ => 0) <$> Act.mapError .shadow (poisonRegion addr size)
  | unpoison addr size => (fun _ => 0) <$> Act.mapError .shadow (unpoisonRegion addr size)
  | classify tid addr isWrite size => (fun _ => 0) <$> Sanitizer.classify tid addr isWrite size
  | setExitCode code => (fun _ => 0) <$> Sanitizer.setExitCode code
  | reportStats => (fun _ => 0) <$> Sanitizer.reportStats

/-- The call marks the shadow by hand. -/
def Marks : Operation → Prop
  | poison .. | unpoison .. => True
  | _ => False

end Operation

/-- The answer to a call. -/
abbrev Answer := Except SanitizerError Nat

/-- Something that happens to a sanitizer. -/
inductive Event where
  | call (op : Operation) (answer : Answer)
  /-- A user writes to one of its chunks. -/
  | write (addr : Nat) (bytes : List UInt8)
  /-- The wall clock shows another moment. -/
  | tick (now : Calendar.Moment)
  /-- Who reads the log takes entries out. -/
  | readLog (log : EventLog)
  /-- Calls of the operating system are going to fail. -/
  | schedule (failures : List ArmedFailure)

namespace Event

/-- The event sets up failures of the operating system. -/
def Fails : Event → Prop
  | schedule _ => True
  | _ => False

/-- A user marks the shadow by hand. -/
def Marks : Event → Prop
  | call op _ => op.Marks
  | _ => False

end Event

namespace Sanitizer

/-- The `n` bytes at `addr` belong to an allocated chunk. -/
def Holds (s : Sanitizer) (addr n : Nat) : Prop :=
  ∃ k, s.heap.chunk? addr = some k ∧ k.record.state = .allocated
    ∧ k.record.userBegin ≤ addr ∧ addr + n ≤ k.record.userBegin + k.record.requestedSize

/-- One event and what it does. -/
inductive Step (s : Sanitizer) : Event → Sanitizer → Prop where
  | call {op : Operation} {answer : Answer} {t : Sanitizer}
      (hact : (Act.attempt op.perform : Act Empty Sanitizer Answer) s = .ok answer t) :
      Step s (.call op answer) t
  | write {addr : Nat} {bytes : List UInt8} (hholds : s.Holds addr bytes.length) :
      Step s (.write addr bytes) { s with heap := s.heap.mapPages (·.write addr bytes) }
  | tick (now : Calendar.Moment) : Step s (.tick now) { s with clock := some now }
  | readLog (log : EventLog) : Step s (.readLog log) { s with log }
  | schedule (failures : List ArmedFailure) :
      Step s (.schedule failures) { s with heap := s.heap.mapPages (·.schedule failures) }

end Sanitizer

/-- An event with the states around it. -/
structure Occurrence where
  before : Sanitizer
  event : Event
  after : Sanitizer

/-- What a call returned. -/
def Occurrence.returned? (o : Occurrence) : Option Nat :=
  match o.event with
  | .call _ (.ok a) => some a
  | _ => none

/-- A sanitizer with what happened since it was made, the last event last.  Calls of the operating
    system can fail only if `failing`, and users mark the shadow by hand only if `marked`. -/
inductive Run (failing marked : Prop) : List Occurrence → Sanitizer → Prop where
  | start {config : Config} {log : EventLog} {capture : StackCapture} {now : Calendar.Moment}
      {p q : Pages} {s : Sanitizer} (hinit : Sanitizer.init config log capture now p = .ok s q)
      (hcalm : p.armed ≠ none → failing) : Run failing marked [] s
  | snoc {past : List Occurrence} {s t : Sanitizer} {e : Event} (h : Run failing marked past s)
      (hstep : s.Step e t) (hfails : e.Fails → failing) (hmarks : e.Marks → marked) :
      Run failing marked (past ++ [⟨s, e, t⟩]) t

/-! ## Runs that are computed -/

/-- What can be made to happen. -/
inductive Request where
  | call (op : Operation)
  | schedule (failures : List ArmedFailure)

namespace Request

/-- The failures that are set up, and the marks that are made, are those that a run allows. -/
def Fits (failing marked : Prop) : Request → Prop
  | call op => op.Marks → marked
  | schedule _ => failing

/-- Make it happen; none if the call is stopped. -/
def occurrence (s : Sanitizer) : Request → Option Occurrence
  | call op =>
    match (Act.attempt op.perform : Act Empty Sanitizer Answer) s with
    | .ok answer t => some ⟨s, .call op answer, t⟩
    | .error _ _ => none
  | schedule failures =>
    some ⟨s, .schedule failures, { s with heap := s.heap.mapPages (·.schedule failures) }⟩

/-- Make one after the other happen. -/
def follow (s : Sanitizer) : List Request → Option (List Occurrence × Sanitizer)
  | [] => some ([], s)
  | r :: rest =>
    match r.occurrence s with
    | none => none
    | some o => (follow o.after rest).map fun more => (o :: more.1, more.2)

/-- A sanitizer for a configuration on fresh pages, to which some requests happen. -/
def play (config : Config) (capture : StackCapture) (now : Calendar.Moment)
    (requests : List Request) : Option (List Occurrence × Sanitizer) :=
  match Sanitizer.init config { threshold := config.logThreshold } capture now {} with
  | .ok s _ => follow s requests
  | .error _ _ => none

/-- The requests come to an end that passes a check. -/
def plays (config : Config) (capture : StackCapture) (now : Calendar.Moment)
    (requests : List Request) (check : List Occurrence → Sanitizer → Bool) : Bool :=
  (play config capture now requests).any fun r => check r.1 r.2

/-- A call that is made to happen happens as such. -/
theorem of_occurrence_call {s : Sanitizer} {op : Operation} {o : Occurrence}
    (h : (Request.call op).occurrence s = some o) :
    o.before = s ∧ s.Step o.event o.after ∧ ∃ answer, o.event = .call op answer := by
  dsimp only [occurrence] at h
  cases hact : (Act.attempt op.perform : Act Empty Sanitizer Answer) s with
  | ok answer t =>
      rw [hact] at h
      obtain rfl := Option.some.inj h
      exact ⟨rfl, .call hact, answer, rfl⟩
  | error e t =>
      rw [hact] at h
      exact nomatch h

end Request

namespace Run

variable {failing marked : Prop} {past : List Occurrence} {s : Sanitizer}

/-- What was made to happen is an event of the run. -/
theorem request (h : Run failing marked past s) {r : Request} {o : Occurrence}
    (hoccurs : r.occurrence s = some o) (hfits : r.Fits failing marked) :
    Run failing marked (past ++ [o]) o.after := by
  cases r with
  | call op =>
      dsimp only [Request.occurrence] at hoccurs
      cases hact : (Act.attempt op.perform : Act Empty Sanitizer Answer) s with
      | ok answer t =>
          rw [hact] at hoccurs
          obtain rfl := Option.some.inj hoccurs
          exact h.snoc (.call hact) False.elim hfits
      | error e t =>
          rw [hact] at hoccurs
          exact nomatch hoccurs
  | schedule failures =>
      obtain rfl := Option.some.inj hoccurs
      exact h.snoc (.schedule failures) (fun _ => hfits) False.elim

/-- What was made to happen carries a run on. -/
theorem follow (h : Run failing marked past s) {requests : List Request}
    {more : List Occurrence} {t : Sanitizer} (hmore : Request.follow s requests = some (more, t))
    (hfits : ∀ r ∈ requests, r.Fits failing marked) : Run failing marked (past ++ more) t := by
  induction requests generalizing past s more with
  | nil =>
      obtain ⟨rfl, rfl⟩ := Prod.mk.inj (Option.some.inj hmore)
      rwa [List.append_nil]
  | cons r rest ih =>
      obtain ⟨hfirst, hrest⟩ := List.forall_mem_cons.mp hfits
      unfold Request.follow at hmore
      cases hoccurs : r.occurrence s with
      | none =>
          rw [hoccurs] at hmore
          exact nomatch hmore
      | some o =>
          rw [hoccurs] at hmore
          obtain ⟨⟨os, u⟩, hos, heq⟩ := Option.map_eq_some_iff.mp hmore
          obtain ⟨rfl, rfl⟩ := Prod.mk.inj heq
          have hall := ih (h.request hoccurs hfirst) hos hrest
          rwa [List.append_assoc] at hall

/-- What is played is a run. -/
theorem play {config : Config} {capture : StackCapture} {now : Calendar.Moment}
    {requests : List Request} (h : Request.play config capture now requests = some (past, s))
    (hfits : ∀ r ∈ requests, r.Fits failing marked) : Run failing marked past s := by
  unfold Request.play at h
  cases hinit : Sanitizer.init config { threshold := config.logThreshold } capture now {} with
  | ok s' q =>
      rw [hinit] at h
      exact (Run.start hinit fun harmed => absurd rfl harmed).follow h hfits
  | error e q =>
      rw [hinit] at h
      exact nomatch h

variable (failing marked) in
/-- A run can be found by playing it. -/
theorem of_plays {config : Config} {capture : StackCapture} {now : Calendar.Moment}
    {requests : List Request} {check : List Occurrence → Sanitizer → Bool}
    (h : Request.plays config capture now requests check = true)
    (hfits : ∀ r ∈ requests, r.Fits failing marked) :
    ∃ past s, Run failing marked past s ∧ check past s = true := by
  obtain ⟨⟨past, s⟩, hplay, hcheck⟩ := (Option.any_eq_true _ _).mp h
  exact ⟨past, s, play hplay hfits, hcheck⟩

/-- The last call of a run that is played. -/
theorem last_call (failing marked : Prop) {config : Config} {capture : StackCapture}
    {now : Calendar.Moment} {requests : List Request} {op : Operation}
    {check : Sanitizer → Occurrence → Bool}
    (h : Request.plays config capture now requests
      (fun _ s => ((Request.call op).occurrence s).any (check s)) = true)
    (hfits : ∀ r ∈ requests, r.Fits failing marked) :
    ∃ past s t answer, Run failing marked past s ∧ s.Step (.call op answer) t
      ∧ check s ⟨s, .call op answer, t⟩ = true := by
  obtain ⟨past, s, hrun, hany⟩ := of_plays failing marked h hfits
  obtain ⟨⟨before, event, t⟩, hoccurs, hcheck⟩ := (Option.any_eq_true _ _).mp hany
  obtain ⟨rfl, hstep, answer, rfl⟩ := Request.of_occurrence_call hoccurs
  exact ⟨past, _, t, answer, hrun, hstep, hcheck⟩

end Run

end GuardedHeap
