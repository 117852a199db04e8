import GuardedHeap.Program.Memory
import GuardedHeap.Proofs.Program.Roster
import GuardedHeap.Proofs.Report

/-! # Dying — how a call ends the process

    A process ends on the fatal path if a report has begun when it ends, and
    it then exits with the code that is set (`Program.Fatal`).  Nothing but
    `terminate` begins a report: all that is around it leaves the guard of
    the report alone, and `terminate` itself never returns
    (`Program.finishes_terminate`).  A death callback that calls back in
    registers its thread a second time, and only for want of memory does it
    keep the process from exiting (`Program.finishes_runCallback`). -/

namespace GuardedHeap

namespace Program

variable {ε α : Type} {p : Program} {s : Sanitizer} {past : List Occurrence}

/-- There was no memory for a callback that calls back in: its thread could not register, or got no
    chunk.  The failures of a run are not to blame, as there are none. -/
inductive Forsaken (q : Program) : Prop where
  | register {past : List Occurrence} {s t : Sanitizer} {e : SanitizerError} (hrun : Run False True past s)
      (hrefused : Sanitizer.register s = .error (.refused e) t) (he : e.Shortage)
      (hbuilt : q.built = some { t with log := { t.log with buffer := {} } })
  | allocate {past : List Occurrence} {s t : Sanitizer} {id : Nat} {e : AllocError} (hrun : Run False True past s)
      (hrefused : Sanitizer.asThread id (Sanitizer.Client.allocate nestedSize Shadow.granule .malloc 0) s =
        .error (.refused e) t)
      (he : e.Shortage) (hbuilt : q.built = some { t with log := { t.log with buffer := {} } })

/-- A process that ends with `h` in the state `q` ends on the fatal path: a report has begun, and the
    process exits with the code that is set, unless there was no memory for a death callback that calls
    back in. -/
def Fatal (h : Halt Exit) (q : Program) : Prop :=
  q.report.reporting = true
    ∧ ((∃ s, q.built = some s ∧ h = .refused ⟨s.exitCode⟩)
      ∨ h = .stopped ∧ q.callback = some .nested ∧ q.Forsaken)

/-- The action ends the process on the fatal path. -/
def Kills (act : Act Exit Program α) (p : Program) : Prop :=
  Act.Finishes act p (fun _ _ => False) Fatal

/-! ## The sanitizer of a process -/

/-- The process after an action has left its sanitizer as `s` and the log was written out. -/
def logged (p : Program) (s : Sanitizer) : Program :=
  { p with
    built := some { s with log := { s.log with buffer := {} } }
    stderr := p.stderr ++ String.ofList (Text.Utf8.decode s.log.buffer.bytes) }

theorem sanitizer_of_built (hs : p.built = some s) : sanitizer p = .ok s p := by
  unfold sanitizer
  rw [Act.get_bind, hs]
  rfl

theorem sanitizer_bind (hs : p.built = some s) (next : Sanitizer → Act Exit Program α) :
    (sanitizer >>= next) p = next s p :=
  Act.bind_of_ok (sanitizer_of_built hs)

theorem finishes_say {text : String} {ok : Unit → Program → Prop} {no : Halt Exit → Program → Prop} :
    Act.Finishes (say text) p ok no ↔ ok () { p with stderr := p.stderr ++ text } :=
  Iff.rfl

theorem finishes_sanitizer_bind (hs : p.built = some s) {next : Sanitizer → Act Exit Program α}
    {ok : α → Program → Prop} {no : Halt Exit → Program → Prop} :
    Act.Finishes (sanitizer >>= next) p ok no ↔ Act.Finishes (next s) p ok no := by
  unfold Act.Finishes
  rw [sanitizer_bind hs]

/-- The sanitizer is built before an action on it begins. -/
theorem finishes_onSanitizer_first {act : Act ε Sanitizer α} {ok : Except ε α → Program → Prop}
    {no : Halt Exit → Program → Prop}
    (h : Act.Finishes sanitizer p
      (fun s q => q.built = some s ∧ Act.Finishes (onSanitizer act) q ok no) no) :
    Act.Finishes (onSanitizer act) p ok no := by
  unfold onSanitizer at *
  rw [Act.finishes_bind]
  refine h.imp (fun s q hq => ?_) fun _ _ h => h
  obtain ⟨hs, hq⟩ := hq
  unfold Act.Finishes at hq
  rwa [sanitizer_bind hs] at hq

/-- An action on a sanitizer that is built is written to the log, unless it is stopped. -/
theorem finishes_onSanitizer {act : Act ε Sanitizer α} {ok : Except ε α → Program → Prop}
    {no : Halt Exit → Program → Prop} (hs : p.built = some s)
    (h : Act.Finishes act s (fun a t => ok (.ok a) (p.logged t)) fun e t =>
      (∀ e', e = .refused e' → ok (.error e') (p.logged t)) ∧ (e = .stopped → no .stopped p)) :
    Act.Finishes (onSanitizer act) p ok no := by
  unfold Act.Finishes onSanitizer at *
  rw [sanitizer_bind hs, Act.get_bind]
  cases hact : act s with
  | ok a t => rw [hact] at h; exact h
  | error e t =>
      rw [hact] at h
      cases e with
      | refused e => exact h.1 e rfl
      | stopped => exact h.2 rfl

/-! ## What begins no report -/

/-- What the end of a process depends on. -/
def alarm (p : Program) : ReportGuard × Option DeathCallback :=
  (p.report, p.callback)

section Quiet

open Act

theorem fixes_say (text : String) : Fixes alarm (say text) :=
  fixes_modify fun _ => rfl

theorem fixes_flushLog : Fixes alarm flushLog :=
  fixes_modify fun p => by
    cases p with
    | mk options pages built => cases built <;> rfl

theorem fixes_sanitizer : Fixes alarm sanitizer := by
  refine fixes_get_bind fun p => ?_
  cases p.built with
  | some s => rfl
  | none =>
      dsimp only
      cases build p.options p.pages with
      | error e => rfl
      | ok made =>
          cases made with
          | error o => rfl
          | ok s =>
              have hrest : Fixes alarm (flushLog >>= fun _ => get >>= fun p => orStop p.built) :=
                fixes_flushLog.bind fun _ => fixes_get.bind fun _ => fixes_orStop
              exact hrest { p with built := some s }

theorem fixes_onSanitizer (act : Act ε Sanitizer α) : Fixes alarm (onSanitizer act) := by
  have hrest : ∀ r : Except ε α, Fixes alarm (flushLog >>= fun _ => pure r) := fun _ =>
    fixes_flushLog.bind fun _ => fixes_pure
  refine fixes_sanitizer.bind fun s => fixes_get_bind fun p => ?_
  cases act s with
  | ok a t => exact hrest (.ok a) { p with built := some t }
  | error e t =>
      cases e with
      | refused e => exact hrest (.error e) { p with built := some t }
      | stopped => rfl

theorem fixes_onSanitizerSafely (act : Act Empty Sanitizer α) : Fixes alarm (onSanitizerSafely act) :=
  (fixes_onSanitizer act).bind fun r => by
    cases r with
    | ok a => exact fixes_pure
    | error e => exact e.elim

theorem fixes_runCallback : Fixes alarm runCallback := by
  refine fixes_get.bind fun p => ?_
  cases p.callback with
  | none => exact fixes_pure
  | some callback =>
      cases callback with
      | plain => exact (fixes_say _).bind fun _ => fixes_pure
      | nested =>
          refine (fixes_onSanitizer _).bind fun r => ?_
          cases r with
          | error e => exact fun _ => rfl
          | ok id =>
              refine (fixes_onSanitizer _).bind fun r => ?_
              cases r with
              | error e => exact fun _ => rfl
              | ok user =>
                  exact fixes_sanitizer.bind fun _ => (fixes_say _).bind fun _ =>
                    (fixes_onSanitizer _).bind fun _ => fixes_pure

end Quiet

/-! ## The death callback -/

section Callback

open Act

/-- What a call of a thread did is written out. -/
theorem finishes_onSanitizer_goes (hs : p.built = some s) {keep : List Nat}
    {act : Act ε Sanitizer α} {yes : α → Sanitizer → Prop} {no : ε → Sanitizer → Prop}
    (hgoes : EndsOrStops act s (fun _ t => s.Goes keep t) fun _ t => s.Goes keep t) (hact : Ends act s yes no)
    {ok : Except ε α → Program → Prop} {stop : Halt Exit → Program → Prop}
    (hok : ∀ a t, yes a t → s.Goes keep t → ok (.ok a) (p.logged t))
    (hno : ∀ e t, no e t → s.Goes keep t → act s = .error (.refused e) t → ok (.error e) (p.logged t)) :
    Finishes (onSanitizer act) p ok stop := by
  refine finishes_onSanitizer hs ((hact.and_endsOrStops hgoes).finishes.imp_eq ?_ ?_)
  · exact fun a t _ h => hok a t h.1 h.2
  · rintro _ t hrefused ⟨e, rfl, h, hgoes⟩
    refine ⟨fun e' heq => ?_, nofun⟩
    cases heq
    exact hno e t h hgoes hrefused

/-- A chunk for the callback is refused for want of memory alone. -/
theorem ends_nestedAllocation (hrun : Run False True past s) {id : Nat} (hid : id ∈ s.ids) :
    Ends (Sanitizer.asThread id (Sanitizer.Client.allocate nestedSize Shadow.granule .malloc 0)) s
      (fun _ _ => True) fun e _ => e.Shortage := by
  obtain ⟨u, hu⟩ := Sanitizer.mem_ids.mp hid
  obtain ⟨hclient, hscene⟩ := Sanitizer.client_sound hrun.fit hrun.sound hu
  refine Sanitizer.ends_asThread hu ?_
  refine (Sanitizer.Client.fetch_judged hclient hscene (.chunk nestedSize Shadow.granule .malloc 0)).imp
    (fun _ _ _ => trivial) fun e _ h => h.resolve_right ?_
  rintro (hpower | hoverflows)
  · exact absurd hpower (by decide)
  · exact Config.not_overflows hrun.fit.config (by decide) hoverflows

/-- A free is answered or refused. -/
theorem ends_free_registered (hrun : Run False True past s) {id : Nat} (hid : id ∈ s.ids) (user : Nat) :
    Ends (Sanitizer.asThread id (Sanitizer.Client.free user .malloc 0)) s (fun _ _ => True) fun _ _ => True := by
  obtain ⟨u, hu⟩ := Sanitizer.mem_ids.mp hid
  obtain ⟨hclient, hscene⟩ := Sanitizer.client_sound hrun.fit hrun.sound hu
  exact Sanitizer.ends_asThread hu
    ((Sanitizer.Client.ends_free hclient hscene user .malloc 0).imp (fun _ _ _ => trivial) fun _ _ _ => trivial)

/-- The callback returns, and with the registration that it has made if it calls back in, unless there is
    no memory for it. -/
theorem finishes_runCallback (hs : p.built = some s) (hrun : Run False True past s) :
    Finishes runCallback p
      (fun again q => ∃ t, q.built = some t ∧ ∃ past', Run False True past' t ∧ ∀ id, again = some id → id ∈ t.ids)
      fun e q => e = .stopped ∧ p.callback = some .nested ∧ q.Forsaken := by
  unfold runCallback
  rw [finishes_bind, finishes_get]
  cases hcallback : p.callback with
  | none => exact ⟨s, hs, past, hrun, nofun⟩
  | some callback =>
      cases callback with
      | plain => exact ⟨s, hs, past, hrun, nofun⟩
      | nested =>
          have hregister : Ends Sanitizer.register s (fun id t => id ∈ t.ids) fun e _ => e.Shortage :=
            (Sanitizer.ends_register_ids hrun.fit).imp
              (fun id t h => h.2.1 ▸ List.mem_append_right _ List.mem_cons_self) fun _ _ h => h.1
          dsimp only
          rw [finishes_bind]
          refine finishes_onSanitizer_goes hs (Sanitizer.register_goes hrun []) hregister ?_ ?_
          case refine_2 => exact fun e t he _ hact => ⟨rfl, rfl, .register hrun hact he rfl⟩
          intro id t hid hgoes
          obtain ⟨past', hrun'⟩ := hgoes.runs hrun { t.log with buffer := {} }
          dsimp only
          rw [finishes_bind]
          refine finishes_onSanitizer_goes rfl (Sanitizer.goes_allocate id _ _ _ _ [id])
            (ends_nestedAllocation hrun' hid) ?_ ?_
          case refine_2 => exact fun e u he _ hact => ⟨rfl, rfl, .allocate hrun' hact he rfl⟩
          intro user u _ hgoes'
          obtain ⟨past'', hrun''⟩ := hgoes'.runs hrun' { u.log with buffer := {} }
          have hid' : id ∈ u.ids := hgoes'.keeps id List.mem_cons_self hid
          dsimp only
          rw [finishes_sanitizer_bind rfl, finishes_bind, finishes_say, finishes_bind]
          -- What the free of the chunk answers does not matter.
          refine finishes_onSanitizer_goes rfl (Sanitizer.goes_free id user .malloc 0 [id])
            (ends_free_registered hrun'' hid' user) (fun _ v _ hgoes'' => ?_) fun _ v _ hgoes'' _ => ?_
          all_goals
            obtain ⟨past, hrun⟩ := hgoes''.runs hrun'' { v.log with buffer := {} }
            refine ⟨_, rfl, past, hrun, fun i heq => ?_⟩
            cases heq
            exact hgoes''.keeps id List.mem_cons_self hid'

end Callback

/-! ## The fatal path -/

/-- The rest of a report that has begun. -/
def conclude (words : Sanitizer.LastWords) : Act Exit Program α := do
  say words.text
  onSanitizerSafely (Sanitizer.emitLastWords words)
  let again ← runCallback
  let code := (← sanitizer).exitCode
  match again with
  | some id =>
    let _ ← onSanitizer (Sanitizer.unregister id)
  | none => pure ()
  Act.refuse ⟨code⟩

theorem fixes_conclude (words : Sanitizer.LastWords) : Act.Fixes alarm (conclude words : Act Exit Program α) := by
  refine (fixes_say _).bind fun _ => (fixes_onSanitizerSafely _).bind fun _ => fixes_runCallback.bind fun again =>
    fixes_sanitizer.bind fun s => ?_
  cases again with
  | none => exact Act.fixes_refuse
  | some id => exact (fixes_onSanitizer _).bind fun _ => Act.fixes_refuse

/-- The process exits with the code that is set, whether or not the callback has registered its thread
    anew. -/
theorem finishes_exit (hs : p.built = some s) (hrun : Run False True past s) {again : Option Nat}
    (hagain : ∀ id, again = some id → id ∈ s.ids) :
    Act.Finishes (do
        match again with
        | some id =>
          let _ ← onSanitizer (Sanitizer.unregister id)
        | none => pure ()
        Act.refuse ⟨s.exitCode⟩ : Act Exit Program α) p (fun _ _ => False)
      fun e q => ∃ s, q.built = some s ∧ e = .refused ⟨s.exitCode⟩ := by
  cases again with
  | none => exact ⟨s, hs, rfl⟩
  | some id =>
      have hid := hagain id rfl
      have hends : Act.Ends (Sanitizer.unregister id) s (fun _ t => t.exitCode = s.exitCode) fun _ _ => False :=
        ((Sanitizer.ends_unregister_registered hrun hid).and_endsOrStops
          (Sanitizer.leaves_unregister_exitCode id).orStops).imp (fun _ _ h => h.2) fun _ _ h => h.1
      dsimp only
      rw [Act.finishes_bind]
      refine finishes_onSanitizer hs (hends.finishes.imp (fun _ t hcode => ?_) fun _ _ ⟨_, _, h⟩ => h.elim)
      exact ⟨_, rfl, congrArg (fun code => Halt.refused (⟨code⟩ : Exit)) hcode.symm⟩

/-- A report that has begun ends the process on the fatal path. -/
theorem finishes_conclude (hs : p.built = some s) (hrun : Run False True past s)
    (hreport : p.report.reporting = true) (words : Sanitizer.LastWords) :
    Act.Finishes (conclude words : Act Exit Program α) p (fun _ _ => False) Fatal := by
  have hends : Act.Finishes (conclude words : Act Exit Program α) p (fun _ _ => False) fun e q =>
      (∃ s, q.built = some s ∧ e = .refused ⟨s.exitCode⟩)
        ∨ e = .stopped ∧ p.callback = some .nested ∧ q.Forsaken := by
    have hemit : Act.Ends (Sanitizer.emitLastWords words : Act Empty Sanitizer Unit) s
        (fun _ t => t = { s with log := t.log }) fun _ _ => False :=
      Sanitizer.ends_emit_eq hrun.fit.clock _ _ _
    unfold conclude onSanitizerSafely
    rw [Act.finishes_bind, finishes_say, Act.finishes_bind, Act.finishes_bind]
    refine finishes_onSanitizer hs (hemit.finishes.imp (fun _ t ht => ?_) fun _ _ ⟨e, _⟩ => e.elim)
    obtain ⟨before, hnext⟩ : ∃ before, Run False True before { t with log := { t.log with buffer := {} } } := by
      rw [ht]
      exact ⟨_, hrun.snoc (.readLog _) False.elim False.elim⟩
    rw [Act.finishes_pure, Act.finishes_bind]
    refine (finishes_runCallback rfl hnext).imp ?_ fun e q h => .inr h
    rintro again q ⟨u, hu, past', hrun', hagain⟩
    rw [finishes_sanitizer_bind hu]
    exact (finishes_exit hu hrun' hagain).imp (fun _ _ h => h) fun _ _ h => .inl h
  -- The report and the callback are those of the beginning.
  refine hends.imp_eq (fun _ _ _ h => h) fun e q hact h => ?_
  obtain ⟨hq, hcallback⟩ := Prod.mk.inj ((fixes_conclude words).of_error hact)
  exact ⟨hq ▸ hreport, h.imp_right fun ⟨hstopped, hnested, hforsaken⟩ =>
    ⟨hstopped, hcallback.trans hnested, hforsaken⟩⟩

/-- Last words are said once, and end the process. -/
theorem finishes_terminate (hs : p.built = some s) (hrun : Run False True past s)
    (hquiet : p.report.reporting = false) (words : Sanitizer.LastWords) :
    Act.Finishes (terminate (.ok words) : Act Exit Program α) p (fun _ _ => False) Fatal := by
  have hbegin : p.report.tryBegin = (true, { reporting := true }) := by
    unfold ReportGuard.tryBegin
    rw [hquiet]
    rfl
  unfold terminate
  rw [Act.finishes_bind, Act.finishes_liftM_ok, Act.finishes_bind, Act.finishes_get, hbegin]
  exact finishes_conclude (p := { p with report := { reporting := true } }) hs hrun rfl words

end Program

/-! ## Last words -/

/-- Every wrong free can be told. -/
theorem FreeError.text_ok {h : Heap} (hwf : h.WF)
    (hfits : ∀ b ∈ h.blocks, b.record.state ≠ .recycled → b.Fits) (e : FreeError) :
    ∃ text, e.text h = .ok text := by
  have hdetails : ∃ lines, e.detailLines h = .ok lines := by
    cases e with
    | invalidFree addr tid =>
        obtain ⟨c, hfind, hnames⟩ := Heap.findChunk_ok hwf hfits addr
        unfold detailLines
        dsimp only
        rw [hfind]
        cases c with
        | none => exact ⟨_, rfl⟩
        | some k =>
            obtain ⟨b, hb, rfl⟩ := hnames k rfl
            have hfit := hfits b hb.1 hb.2
            obtain ⟨l, hl⟩ := HeapLocation.of_ok hfit hwf hb.1 addr
            have hregion : ∃ text, Report.regionText b.chunk = .ok text := by
              unfold Report.regionText
              rw [hfit.userEnd_eq hwf hb.1]
              exact ⟨_, rfl⟩
            obtain ⟨region, hregion⟩ := hregion
            dsimp only [bind, Except.bind]
            rw [hl, hregion]
            exact ⟨_, rfl⟩
    | _ => exact ⟨_, rfl⟩
  obtain ⟨lines, hlines⟩ := hdetails
  unfold text
  rw [hlines]
  exact ⟨_, rfl⟩

namespace Program

variable {α : Type} {p : Program} {s : Sanitizer}

/-- An error that ends the process ends it on the fatal path. -/
theorem finishes_dieOf {past : List Occurrence} (hs : p.built = some s) (hrun : Run False True past s)
    (hquiet : p.report.reporting = false) (e : SanitizerError) :
    Act.Finishes (dieOf e : Act Exit Program α) p (fun _ _ => False) Fatal := by
  have hwords : ∃ words, s.wordsOfError e = .ok words := by
    unfold Sanitizer.wordsOfError
    cases e with
    | free wrong =>
        obtain ⟨text, htext⟩ := wrong.text_ok hrun.fit.heap hrun.sound.fits
        dsimp only
        rw [htext]
        exact ⟨_, rfl⟩
    | _ => exact ⟨_, rfl⟩
  obtain ⟨words, hwords⟩ := hwords
  unfold dieOf
  rw [finishes_sanitizer_bind hs, hwords]
  exact finishes_terminate hs hrun hquiet words

end Program

end GuardedHeap
