import GuardedHeap.Proofs.Program.Verdicts
import GuardedHeap.Proofs.Run.Exact
import GuardedHeap.Proofs.Shadow.Scan

/-! # Lives — from the start of a process to the call that ends it

    In a process threads make calls and end, in any order, and the program
    writes to its chunks (`Program.Action`).  Whatever returns leaves a
    process that lives (`Program.Life.alive`), so the first action that
    ends a process on the fatal path is its first wrong call
    (`Program.Life.ends_at_first_wrong_call`). -/

namespace GuardedHeap

open Act

namespace Sanitizer

/-- Statistics are reported the same whatever errors there might be. -/
theorem mapError_reportStats {ε ε' : Type} (f : ε → ε') :
    Act.mapError f (reportStats : Act ε Sanitizer String) = reportStats := by
  funext s
  unfold Act.mapError reportStats emitStats emit
  simp only [bind_assoc, Act.get_bind]
  cases s.clock <;> rfl

/-! ## Calls that are never stopped -/

variable {past : List Occurrence} {s : Sanitizer}

/-- A user may mark any range. -/
theorem userMark_ends (hrun : Run False True past s) {mark : Shadow → Nat → Nat → Shadow} {addr size : Nat}
    (hsame : ∀ shadow, Shadow.SameRange shadow (mark shadow addr size)) :
    Ends (userMark (Shadow.markUser mark addr size)) s (fun _ _ => True) fun _ _ => True := by
  have hends : Ends (userMark (Shadow.markUser mark addr size)) s (fun _ t => Comes False True s [] t)
      fun _ t => Comes False True s [] t :=
    ends_userMark trivial hrun.fit fun shadow => Shadow.ends_markUser (hsame shadow)
  exact hends.imp (fun _ _ _ => trivial) fun _ _ _ => trivial

/-- The clock shows a time whenever statistics are reported. -/
theorem reportStats_ends {ε : Type} (hrun : Run False True past s) :
    Ends (reportStats : Act ε Sanitizer String) s (fun _ _ => True) fun _ _ => True := by
  unfold reportStats emitStats
  rw [ends_bind, ends_bind, ends_get, ends_bind]
  exact (ends_emit hrun.fit.clock _ _ _).imp (fun _ _ _ => trivial) fun _ _ h => h

/-- A registered thread may leave its frames behind. -/
theorem noReturn_ends {ε : Type} (hrun : Run False True past s) {id : Nat} (hid : id ∈ s.ids) :
    Ends (asThread id Client.noReturn : Act ε Sanitizer Unit) s (fun _ _ => True) fun _ _ => True := by
  obtain ⟨t, ht⟩ := mem_ids.mp hid
  obtain ⟨hclient, hscene⟩ := client_sound hrun.fit hrun.sound ht
  exact ends_asThread ht ((Client.ends_noReturn hclient hscene).imp (fun _ _ _ => trivial) fun _ _ h => h)

/-- Any byte may be asked about. -/
theorem isPoisoned_ok (hrun : Run False True past s) (addr : Nat) : ∃ b, s.isPoisoned addr = .ok b := by
  have hroom := hrun.fit.heap.endAddr_room
  have hend := hrun.fit.heap.layout.shadow_end
  have hgranule : Shadow.granule ≤ Pages.pageSize := by decide
  cases hcovers : s.heap.shadow.covers addr 1 with
  | true =>
      obtain ⟨hlo, hhi⟩ := Shadow.covers_iff.mp hcovers
      obtain ⟨b, hb, -⟩ := Shadow.isPoisoned_eq ⟨hlo, hhi⟩ (by omega)
      exact ⟨b, isPoisoned_true hb⟩
  | false =>
      have hrefused := Shadow.accessIsPoisoned_of_error (Shadow.firstBad_outside Nat.one_ne_zero hcovers)
      refine ⟨false, ?_⟩
      unfold isPoisoned Shadow.isPoisoned
      rw [hrefused]

end Sanitizer

namespace Program

variable {ε α : Type} {config : Config} {p q : Program} {s : Sanitizer} {thread : Nat}

/-! ## Calls that are never wrong -/

/-- What follows the sanitizer follows it when it is there. -/
theorem Alive.finishes_after (h : Alive config p) {act : Sanitizer → Act Exit Program α}
    (hact : ∀ s q, Alive config q → q.built = some s →
      Finishes (act s) q (fun _ q => Alive config q) fun _ _ => False) :
    Finishes (sanitizer >>= act) p (fun _ q => Alive config q) fun _ _ => p.Unbuildable := by
  rw [finishes_bind]
  refine (h.finishes_sanitizer 0).imp (fun s q hq => ?_) fun _ _ h => h
  exact (hact s q hq.1 hq.2.1).imp (fun _ _ h => h) fun _ _ h => h.elim

/-- An action that is an event of a run lets the process live. -/
theorem Alive.finishes_event (h : Alive config p) (hs : p.built = some s) {act : Act ε Sanitizer α}
    (hgoes : EndsOrStops act s (fun _ t => s.Goes (p.registered.map (·.2)) t)
      fun _ t => s.Goes (p.registered.map (·.2)) t)
    (hends : Ends act s (fun _ _ => True) fun _ _ => True) :
    Finishes (onSanitizer act) p (fun _ q => Alive config q) fun _ _ => False := by
  refine (h.finishes_onSanitizer hs hgoes hends.finishes).imp (fun _ _ ⟨_, _, halive, _⟩ => halive) ?_
  rintro _ _ ⟨-, t, e, hstopped, -⟩
  cases hstopped

/-- So does an action that is a call of a run, if it is never stopped. -/
theorem Alive.finishes_harmless (h : Alive config p) (op : Operation) (hregister : op ≠ .register)
    (hunregister : ∀ id, op ≠ .unregister id) {act : Act ε Sanitizer α} (wrap : ε → SanitizerError)
    (g : α → Nat) (hop : op.perform = g <$> Act.mapError wrap act)
    (hends : ∀ s past, Run False True past s → Ends act s (fun _ _ => True) fun _ _ => True) :
    Finishes (onSanitizer act) p (fun _ q => Alive config q) fun _ _ => p.Unbuildable := by
  refine finishes_onSanitizer_first ((h.finishes_sanitizer 0).imp ?_ fun _ _ h => h)
  rintro s q ⟨hq, hs, -⟩
  obtain ⟨past, hrun⟩ := hq.runs s hs
  have hdone := hq.finishes_event hs (Sanitizer.goes_quietly hregister hunregister hop _) (hends s past hrun)
  exact ⟨hs, hdone.imp (fun _ _ h => h) fun _ _ h => h.elim⟩

/-- An action that is never refused has no errors to look at. -/
theorem finishes_onSanitizerSafely {act : Act Empty Sanitizer α} {ok : Program → Prop}
    {no : Halt Exit → Program → Prop} (h : Finishes (onSanitizer act) p (fun _ q => ok q) no) :
    Finishes (onSanitizerSafely act) p (fun _ q => ok q) no := by
  unfold onSanitizerSafely
  rw [finishes_bind]
  refine h.imp (fun r q hq => ?_) fun _ _ h => h
  cases r with
  | ok a => exact hq
  | error e => exact e.elim

/-- A call that has nothing to ask for on behalf of its thread lets the process live. -/
theorem Alive.finishes_shared (h : Alive config p) {call : Call} (hcall : call.request = none)
    (hnoReturn : call ≠ .noReturn) (hreport : ∀ addr isWrite size, call ≠ .reportError addr isWrite size) :
    Finishes (perform thread call) p (fun _ q => Alive config q) fun _ _ => p.Unbuildable := by
  cases call with
  | setCallback callback => exact h.finishes_after fun s q hq _ => hq.congr rfl rfl rfl rfl rfl
  | estimatedSize | owns | allocatedSize | currentBytes | heapSize | freeBytes =>
      exact h.finishes_after fun s q hq _ => hq
  | isPoisoned addr =>
      refine h.finishes_after fun s q hq hs => ?_
      obtain ⟨past, hrun⟩ := hq.runs s hs
      obtain ⟨b, hb⟩ := Sanitizer.isPoisoned_ok hrun addr
      rw [hb]
      exact hq
  | poison addr size =>
      refine finishes_bind.mpr (h.finishes_harmless (.poison addr size) nofun nofun .shadow (fun _ => 0) rfl ?_)
      exact fun s past hrun => Sanitizer.userMark_ends hrun fun t => t.userPoisoned_sameRange addr size
  | unpoison addr size =>
      refine finishes_bind.mpr (h.finishes_harmless (.unpoison addr size) nofun nofun .shadow (fun _ => 0) rfl ?_)
      exact fun s past hrun => Sanitizer.userMark_ends hrun fun t => t.userUnpoisoned_sameRange addr size
  | setExitCode code =>
      refine finishes_bind.mpr (finishes_onSanitizerSafely ?_)
      exact h.finishes_harmless (.setExitCode code) nofun nofun Empty.elim (fun _ => 0) rfl fun _ _ _ => trivial
  | printStats =>
      have hreported := finishes_onSanitizerSafely <|
        h.finishes_harmless .reportStats nofun nofun Empty.elim (fun _ : String => 0)
          (by rw [Sanitizer.mapError_reportStats]; rfl) fun s past hrun => Sanitizer.reportStats_ends hrun
      exact finishes_bind.mpr (hreported.imp (fun text q hq => hq.congr rfl rfl rfl rfl rfl) fun _ _ h => h)
  | noReturn => exact absurd rfl hnoReturn
  | reportError addr isWrite size => exact absurd rfl (hreport addr isWrite size)
  | _ => exact nomatch hcall

/-- A thread that leaves frames behind needs a registration. -/
theorem Alive.finishes_noReturn (h : Alive config p) (thread : Nat) :
    Finishes (perform thread .noReturn) p (fun _ q => Alive config q) fun _ _ => p.Crowded thread := by
  unfold perform asThread
  rw [finishes_bind, finishes_bind]
  refine (h.finishes_registration thread).imp (fun id q hq => ?_) fun _ _ hcrowded => hcrowded
  obtain ⟨s, hs, hid⟩ := hq.known
  obtain ⟨past, hrun⟩ := hq.alive.runs s hs
  have hop : (Operation.noReturn id).perform = (fun _ => 0) <$> Act.mapError Empty.elim
      (Sanitizer.asThread id Sanitizer.Client.noReturn) := by
    rw [← Sanitizer.asThread_mapError]
    rfl
  have hregister : Operation.noReturn id ≠ .register := nofun
  have hgoes := Sanitizer.goes_quietly (s := s) hregister nofun hop (q.registered.map (·.2))
  refine (hq.alive.finishes_event hs hgoes (Sanitizer.noReturn_ends hrun hid)).imp ?_ fun _ _ h => h.elim
  exact fun _ _ halive => halive

/-- A call that cannot be wrong lets the process live, unless there is no memory for its thread. -/
theorem Alive.finishes_other (h : Alive config p) {call : Call} (hcall : call.request = none)
    (hreport : ∀ addr isWrite size, call ≠ .reportError addr isWrite size) :
    Finishes (perform thread call) p (fun _ q => Alive config q) fun _ _ => p.Crowded thread := by
  by_cases hnoReturn : call = .noReturn
  · rw [hnoReturn]
    exact h.finishes_noReturn thread
  · exact (h.finishes_shared hcall hnoReturn hreport).imp (fun _ _ h => h) fun _ _ h => .build h

/-! ## Writes, and threads that end -/

/-- A chunk that is asked for its size and found large enough holds the bytes. -/
theorem holds_of_owns {addr size : Nat}
    (h : (s.owns addr && decide (size ≤ s.allocatedSize addr)) = true) : s.Holds addr size := by
  obtain ⟨howns, hsize⟩ := (Bool.and_eq_true _ _).mp h
  obtain ⟨n, hn⟩ := Option.isSome_iff_exists.mp howns
  have hsize := of_decide_eq_true hsize
  unfold Sanitizer.allocatedSize at hsize
  rw [hn] at hsize
  obtain ⟨k, hk, rfl⟩ := Option.map_eq_some_iff.mp hn
  obtain ⟨hchunk, hlive⟩ := Option.filter_eq_some_iff.mp hk
  obtain ⟨huser, hstate⟩ := (Bool.and_eq_true _ _).mp hlive
  have hbegin : k.record.userBegin = addr := eq_of_beq huser
  refine ⟨k, hchunk, eq_of_beq hstate, Nat.le_of_eq hbegin, ?_⟩
  rw [hbegin]
  exact Nat.add_le_add_left hsize addr

/-- A write to a chunk lets the process live. -/
theorem Alive.finishes_writeChunk (h : Alive config p) (addr : Nat) (bytes : List UInt8) :
    Finishes (writeChunk addr bytes) p (fun _ q => Alive config q) fun _ _ => p.Unbuildable := by
  unfold writeChunk holds
  rw [finishes_bind, finishes_bind]
  refine (h.finishes_sanitizer 0).imp ?_ fun _ _ h => h
  rintro s q ⟨hq, hs, -⟩
  rw [finishes_pure]
  cases hholds : s.owns addr && decide (bytes.length ≤ s.allocatedSize addr) with
  | false => exact hq
  | true =>
      have hgoes : EndsOrStops
          (Sanitizer.onHeap (modify (·.mapPages (·.write addr bytes))) : Act Empty Sanitizer Unit) s
          (fun _ t => s.Goes (q.registered.map (·.2)) t) fun _ t => s.Goes (q.registered.map (·.2)) t :=
        ⟨⟨_, .write (holds_of_owns hholds), id⟩, fun _ _ h => h⟩
      refine finishes_bind.mpr (finishes_onSanitizerSafely ?_)
      exact (hq.finishes_event hs hgoes trivial).imp (fun _ _ h => h) fun _ _ h => h.elim

/-- A thread that ends lets the process live. -/
theorem Alive.finishes_endThread (h : Alive config p) (thread : Nat) :
    Finishes (endThread thread) p (fun _ q => Alive config q) fun _ _ => False := by
  unfold endThread
  rw [finishes_bind, finishes_get]
  cases hid : p.registration? thread with
  | none => exact h
  | some id =>
      have hmem := mem_of_registration hid
      -- A thread that is registered has a sanitizer to unregister from.
      obtain ⟨s, hs⟩ : ∃ s, p.built = some s := by
        refine Option.ne_none_iff_exists'.mp fun hnone => ?_
        rw [h.idle hnone] at hmem
        exact nomatch hmem
      obtain ⟨past, hrun⟩ := h.runs s hs
      -- The thread forgets its number before it unregisters.
      have hsub : (p.registered.filter (·.1 != thread)).Sublist p.registered := List.filter_sublist
      have hnext : Alive config { p with registered := p.registered.filter (·.1 != thread) } :=
        { h with
          idle := fun hnone => nomatch hs.symm.trans hnone
          ids_nodup := h.ids_nodup.sublist (hsub.map _)
          known := fun s hs r hr => h.known s hs r (hsub.subset hr) }
      have hgone : id ∉ (p.registered.filter (·.1 != thread)).map (·.2) := by
        intro hin
        obtain ⟨r, hr, heq⟩ := List.mem_map.mp hin
        obtain ⟨hr, hother⟩ := List.mem_filter.mp hr
        obtain rfl := List.inj_on_of_nodup_map h.ids_nodup hr hmem heq
        exact bne_iff_ne.mp hother rfl
      dsimp only
      rw [finishes_bind]
      show Finishes _ { p with registered := p.registered.filter (·.1 != thread) } _ _
      rw [finishes_bind]
      have hin := h.known s hs _ hmem
      refine (hnext.finishes_onSanitizer hs (Sanitizer.unregister_goes hrun hin hgone)
        (Sanitizer.ends_unregister_registered hrun hin).finishes).imp ?_ fun _ _ ⟨_, _, _, _, h⟩ => h
      rintro r q ⟨t, -, halive, -, hno⟩
      cases r with
      | ok u => exact halive
      | error e =>
          obtain ⟨_, -, hnever⟩ := hno e rfl
          exact hnever.elim

/-! ## Lives -/

/-- What happens in a process. -/
inductive Action where
  | call (thread : Nat) (c : Call)
  | exit (thread : Nat)
  /-- The program writes to a chunk that it has. -/
  | write (addr : Nat) (bytes : List UInt8)

namespace Action

/-- Carry an action out. -/
def perform : Action → Act Exit Program Unit
  | call thread c => (fun _ => ()) <$> Program.perform thread c
  | exit thread => endThread thread
  | write addr bytes => (fun _ => ()) <$> writeChunk addr bytes

/-- The action asks for the end of the process. -/
def Reports : Action → Prop
  | call _ (.reportError ..) => True
  | _ => False

/-- The action is a wrong call. -/
def Alarms (config : Config) (p : Program) : Action → Prop
  | call thread c => c.Alarms (p.outlook config thread)
  | exit _ | write .. => False

/-- There is no memory for the action. -/
def Starves (p : Program) : Action → Prop
  | call thread c => p.Starves thread c
  | exit _ => False
  | write .. => p.Unbuildable

/-- The action asks for a frame when the number of collected frames may leave the word. -/
def Wraps (p : Program) : Action → Prop
  | call thread c => p.Wraps thread c
  | exit _ | write .. => False

end Action

/-- An action that is no report lets its process live on if it is right, and ends it on the fatal
    path if it is wrong, unless there is no memory for it. -/
theorem Alive.finishes_action (h : Alive config p) {a : Action} (hreport : ¬ a.Reports) :
    Finishes a.perform p (fun _ q => ¬ a.Alarms config p ∧ Alive config q)
      (Ended (a.Starves p) (a.Wraps p) (a.Alarms config p)) := by
  cases a with
  | exit thread =>
      exact (h.finishes_endThread thread).imp (fun _ _ h => ⟨not_false, h⟩) fun _ _ h => h.elim
  | write addr bytes =>
      refine finishes_map.mpr ((h.finishes_writeChunk addr bytes).imp ?_ fun _ _ h => .inl h)
      exact fun _ _ h => ⟨not_false, h⟩
  | call thread c =>
      refine finishes_map.mpr ?_
      by_cases hcall : c.request = none
      case neg => exact h.judged_request hcall
      have hright : ¬ c.Alarms (p.outlook config thread) := by
        unfold Call.Alarms
        rw [hcall]
        exact not_false
      have hquiet : ∀ addr isWrite size, c ≠ .reportError addr isWrite size := by
        rintro addr isWrite size rfl
        exact hreport trivial
      refine (h.finishes_other hcall hquiet).imp (fun _ _ h => ⟨hright, h⟩) fun _ _ h => ?_
      exact .inl (.crowded h)

/-- A process with the actions that have returned since it was started, in a memory where no failure
    is set up, and the states before them, the last one last. -/
inductive Life (options : String) : List (Program × Action) → Program → Prop where
  | start {pages : Pages} (hcalm : pages.armed = none) : Life options [] { options, pages }
  | snoc {past : List (Program × Action)} {p q : Program} {a : Action} {u : Unit}
      (h : Life options past p) (hreport : ¬ a.Reports) (hreturns : a.perform p = .ok u q) :
      Life options (past ++ [(p, a)]) q

namespace Life

variable {options : String} {past : List (Program × Action)}

/-- While calls return the process lives, and none of them was wrong. -/
theorem alive (hparse : Config.parse options = .ok config) (h : Life options past p) :
    Alive config p ∧ ∀ o ∈ past, ¬ o.2.Alarms config o.1 := by
  induction h with
  | start hcalm => exact ⟨.start hparse hcalm, List.forall_mem_nil _⟩
  | snoc h hreport hreturns ih =>
      -- The action returned, which a wrong call never does.
      obtain ⟨halive, hright⟩ := ih
      obtain ⟨hlast, hnext⟩ := (halive.finishes_action hreport).of_ok hreturns
      refine ⟨hnext, fun o ho => ?_⟩
      rcases List.mem_append.mp ho with ho | ho
      · exact hright o ho
      · rw [List.mem_singleton.mp ho]
        exact hlast

/-! ## Lives that are computed -/

/-- A life goes on with actions that return one after the other. -/
theorem forM (h : Life options past p) {actions : List Action} (hreports : ∀ a ∈ actions, ¬ a.Reports)
    {u : Unit} (hact : actions.forM Action.perform p = .ok u q) :
    ∃ past', Life options past' q ∧ past'.map (·.2) = past.map (·.2) ++ actions := by
  induction actions generalizing past p with
  | nil =>
      cases hact
      exact ⟨past, h, (List.append_nil _).symm⟩
  | cons a rest ih =>
      obtain ⟨hfirst, hrest⟩ := List.forall_mem_cons.mp hreports
      dsimp only [List.forM, bind, EStateM.bind] at hact
      cases hreturns : a.perform p with
      | error e r =>
          rw [hreturns] at hact
          exact nomatch hact
      | ok u r =>
          rw [hreturns] at hact
          obtain ⟨past', hlife, hpast⟩ := ih (h.snoc hfirst hreturns) hrest hact
          refine ⟨past', hlife, hpast.trans ?_⟩
          rw [List.map_append, List.append_assoc]
          rfl

/-- The actions return one after the other in a process that was just started, which is left to pass
    a check. -/
def plays (options : String) (actions : List Action) (check : Program → Bool) : Bool :=
  match actions.forM Action.perform { options } with
  | .ok _ p => check p
  | .error _ _ => false

/-- A life can be found by playing it. -/
theorem of_plays {actions : List Action} {check : Program → Bool}
    (h : plays options actions check = true) (hreports : ∀ a ∈ actions, ¬ a.Reports) :
    ∃ past p, Life options past p ∧ past.map (·.2) = actions ∧ check p = true := by
  unfold plays at h
  cases hact : actions.forM Action.perform ({ options } : Program) with
  | error e p =>
      rw [hact] at h
      exact nomatch h
  | ok u p =>
      rw [hact] at h
      obtain ⟨past, hlife, hpast⟩ := (start rfl).forM hreports hact
      exact ⟨past, p, hlife, hpast, h⟩

/-- The action ends the process after a report has begun, with the code that is set. -/
def dies (a : Action) (p : Program) : Bool :=
  match a.perform p with
  | .error (.refused e) q => q.report.reporting && q.built.any fun s => e == ⟨s.exitCode⟩
  | _ => false

theorem kills_of_dies {a : Action} (h : dies a p = true) : Kills a.perform p := by
  unfold dies at h
  unfold Kills Finishes
  cases hact : a.perform p with
  | ok u q =>
      rw [hact] at h
      exact nomatch h
  | error e q =>
      rw [hact] at h
      cases e with
      | stopped => exact nomatch h
      | refused e =>
          obtain ⟨hreporting, hcode⟩ := (Bool.and_eq_true _ _).mp h
          obtain ⟨s, hs, hcode⟩ := (Option.any_eq_true _ _).mp hcode
          exact ⟨hreporting, .inl ⟨s, hs, congrArg _ (eq_of_beq hcode)⟩⟩

/-! ## The first wrong call -/

/-- A process ends on the fatal path exactly at the first wrong call, unless there is no memory: the
    calls that returned were right, a call ends the process if and only if it is wrong, a right one
    returns unless the number of collected frames may leave the word, and it reports nothing even
    then. -/
theorem ends_at_first_wrong_call (hparse : Config.parse options = .ok config) (h : Life options past p)
    {a : Action} (hreport : ¬ a.Reports) (hroom : ¬ a.Starves p) :
    (∀ o ∈ past, ¬ o.2.Alarms config o.1)
      ∧ (Kills a.perform p ↔ a.Alarms config p)
      ∧ (¬ a.Alarms config p → ¬ a.Wraps p → ∃ q, a.perform p = .ok () q)
      ∧ (¬ a.Alarms config p → Finishes a.perform p (fun _ q => q.report.reporting = false)
          fun _ q => q.report.reporting = false) := by
  obtain ⟨halive, hright⟩ := h.alive hparse
  have hjudged := halive.finishes_action hreport
  unfold Kills
  unfold Finishes at *
  cases hact : a.perform p with
  | ok u q =>
      rw [hact] at hjudged
      obtain ⟨hnot, hlives⟩ := hjudged
      exact ⟨hright, iff_of_false not_false hnot, fun _ _ => ⟨q, rfl⟩, fun _ => hlives.quiet⟩
  | error e q =>
      rw [hact] at hjudged
      rcases hjudged.resolve_left hroom with ⟨hwrong, hfatal⟩ | ⟨hnot, hwraps, hquiet⟩
      · exact ⟨hright, iff_of_true hfatal hwrong, fun hnot => absurd hwrong hnot,
          fun hnot => absurd hwrong hnot⟩
      · have hspared : ¬ Fatal e q := fun hfatal => Bool.false_ne_true (hquiet.symm.trans hfatal.1)
        exact ⟨hright, iff_of_false hspared hnot, fun _ hroom => absurd hwraps hroom, fun _ => hquiet⟩

/-- A thread writes to a chunk and ends.  Another thread frees the chunk, and when it frees it again
    the process dies. -/
theorem dies_of_second_free :
    ∃ past p, Life "" past p
      ∧ past.map (·.2) = [.call 0 (.malloc 24), .write 17665200488576 [1, 2, 3], .exit 0,
          .call 1 (.free 17665200488576)]
      ∧ ¬ (Action.call 1 (.free 17665200488576)).Starves p
      ∧ (∀ o ∈ past, ¬ o.2.Alarms {} o.1)
      ∧ (Action.call 1 (.free 17665200488576)).Alarms {} p
      ∧ Kills (Action.call 1 (.free 17665200488576)).perform p := by
  obtain ⟨past, p, hlife, hpast, hcheck⟩ := of_plays
    (show plays "" [.call 0 (.malloc 24), .write 17665200488576 [1, 2, 3], .exit 0,
        .call 1 (.free 17665200488576)]
      (fun p => dies (.call 1 (.free 17665200488576)) p && (p.registration? 1).isSome && p.built.isSome)
      = true by decide +kernel)
    (by simp [Action.Reports])
  simp only [Bool.and_eq_true, Option.isSome_iff_exists] at hcheck
  obtain ⟨⟨hdies, id, hid⟩, s, hs⟩ := hcheck
  have hparse : Config.parse "" = .ok {} := by decide +kernel
  obtain ⟨before, hrun⟩ := (hlife.alive hparse).1.runs s hs
  have hroom : ¬ (Action.call 1 (.free 17665200488576)).Starves p := by
    refine (starves_iff hs hid).not.mpr ?_
    rintro ⟨op, hop, hlacks⟩
    obtain rfl := Option.some.inj hop
    exact Sanitizer.not_lacks_free hrun _ _ _ _ hlacks
  have hkills := kills_of_dies hdies
  obtain ⟨hright, hiff, -⟩ := ends_at_first_wrong_call hparse hlife
    (a := .call 1 (.free 17665200488576)) not_false hroom
  exact ⟨past, p, hlife, hpast, hroom, hright, hiff.mp hkills, hkills⟩

end Life

end Program

end GuardedHeap
